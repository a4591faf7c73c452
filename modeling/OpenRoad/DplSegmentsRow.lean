import OpenRoad.DplSegments
import Mathlib.Data.List.Perm.Basic
import Mathlib.Algebra.Order.Ring.Int

/-!
Slicing the segments of a row at the intervals of the regions, and moving them in to whole sites.
A segment is cut into pieces that cover what it covered; a piece is inside the interval, and then
belongs to its region, or outside, and then keeps the region it had.
-/

namespace OpenRoad.Dpl

/-- The segment is in the interval. -/
def DetailedSeg.Inside (interval : Int × Int) (seg : DetailedSeg) : Prop :=
  interval.1 ≤ seg.minX ∧ seg.maxX ≤ interval.2

/-- The segment is beside the interval. -/
def DetailedSeg.Beside (interval : Int × Int) (seg : DetailedSeg) : Prop :=
  seg.maxX ≤ interval.1 ∨ interval.2 ≤ seg.minX

/-- The region of a segment is one that has it inside an interval; a segment of no region is beside
all intervals. -/
def DetailedSeg.InRegion (intervals : List (Int × Int × Int)) (seg : DetailedSeg) : Prop :=
  (seg.regId = -1 ∧ ∀ d ∈ intervals, seg.Beside d.2) ∨
    ∃ d ∈ intervals, seg.regId = d.1 ∧ seg.Inside d.2

namespace Architecture

variable {reg : Int} {interval : Int × Int} {seg : DetailedSeg}

/-! ### One segment -/

/-- A segment with all that is cut off from it. -/
def pieces (reg : Int) (interval : Int × Int) (seg : DetailedSeg) : List DetailedSeg :=
  (sliceSegment reg interval seg).1 :: (sliceSegment reg interval seg).2

/-- The ways in which a segment is sliced. -/
theorem pieces_cases (reg : Int) (interval : Int × Int) (seg : DetailedSeg) :
    ((interval.2 ≤ seg.minX ∨ seg.maxX ≤ interval.1) ∧ pieces reg interval seg = [seg]) ∨
    (interval.1 ≤ seg.minX ∧ seg.maxX ≤ interval.2 ∧
      pieces reg interval seg = [⟨seg.minX, seg.maxX, reg⟩]) ∨
    (seg.minX < interval.1 ∧ interval.1 < seg.maxX ∧ seg.maxX ≤ interval.2 ∧
      pieces reg interval seg =
        [⟨seg.minX, interval.1, seg.regId⟩, ⟨interval.1, seg.maxX, reg⟩]) ∨
    (interval.1 ≤ seg.minX ∧ seg.minX < interval.2 ∧ interval.2 < seg.maxX ∧
      pieces reg interval seg =
        [⟨interval.2, seg.maxX, seg.regId⟩, ⟨seg.minX, interval.2, reg⟩]) ∨
    (seg.minX < interval.1 ∧ interval.2 < seg.maxX ∧
      pieces reg interval seg = [⟨seg.minX, interval.1, seg.regId⟩,
        ⟨interval.1, interval.2, reg⟩, ⟨interval.2, seg.maxX, seg.regId⟩]) := by
  unfold pieces sliceSegment
  dsimp only
  split_ifs with h1 h2 h3 h4
  · exact Or.inl ⟨by omega, rfl⟩
  · exact Or.inr (Or.inl ⟨h2.1, h2.2, rfl⟩)
  · exact Or.inr (Or.inr (Or.inl ⟨by omega, by omega, by omega, rfl⟩))
  · exact Or.inr (Or.inr (Or.inr (Or.inl ⟨h4.2, by omega, by omega, rfl⟩)))
  · exact Or.inr (Or.inr (Or.inr (Or.inr ⟨by omega, by omega, rfl⟩)))

/-- A piece keeps inside its segment; it is in the interval and of its region, or out of it. -/
theorem mem_pieces (hinterval : interval.1 < interval.2) (hseg : seg.minX < seg.maxX)
    {piece : DetailedSeg} (h : piece ∈ pieces reg interval seg) :
    piece.minX < piece.maxX ∧ seg.minX ≤ piece.minX ∧ piece.maxX ≤ seg.maxX ∧
      ((piece.regId = reg ∧ interval.1 ≤ piece.minX ∧ piece.maxX ≤ interval.2) ∨
        (piece.regId = seg.regId ∧
          (interval.2 ≤ piece.minX ∨ piece.maxX ≤ interval.1))) := by
  rcases pieces_cases reg interval seg with ⟨hout, heq⟩ | ⟨hlo, hhi, heq⟩ | ⟨hlo, hlt, hhi, heq⟩ |
    ⟨hlo, hlt, hhi, heq⟩ | ⟨hlo, hhi, heq⟩
  · rw [heq, List.mem_singleton] at h
    subst h
    exact ⟨hseg, le_rfl, le_rfl, Or.inr ⟨rfl, hout⟩⟩
  · rw [heq, List.mem_singleton] at h
    subst h
    exact ⟨hseg, le_rfl, le_rfl, Or.inl ⟨rfl, hlo, hhi⟩⟩
  · rw [heq, List.mem_pair] at h
    rcases h with rfl | rfl
    · exact ⟨hlo, le_rfl, hlt.le, Or.inr ⟨rfl, Or.inr le_rfl⟩⟩
    · exact ⟨hlt, hlo.le, le_rfl, Or.inl ⟨rfl, le_rfl, hhi⟩⟩
  · rw [heq, List.mem_pair] at h
    rcases h with rfl | rfl
    · exact ⟨hhi, hlt.le, le_rfl, Or.inr ⟨rfl, Or.inl le_rfl⟩⟩
    · exact ⟨hlt, le_rfl, hhi.le, Or.inl ⟨rfl, hlo, le_rfl⟩⟩
  · rw [heq, List.mem_cons, List.mem_pair] at h
    rcases h with rfl | rfl | rfl
    · exact ⟨hlo, le_rfl, by dsimp only; omega, Or.inr ⟨rfl, Or.inr le_rfl⟩⟩
    · exact ⟨hinterval, hlo.le, hhi.le, Or.inl ⟨rfl, le_rfl, le_rfl⟩⟩
    · exact ⟨hhi, by dsimp only; omega, le_rfl, Or.inr ⟨rfl, Or.inl le_rfl⟩⟩

/-- The segments have no unit in common. -/
def DisjointSegs (s t : DetailedSeg) : Prop := s.maxX ≤ t.minX ∨ t.maxX ≤ s.minX

theorem DisjointSegs.symm {s t : DetailedSeg} (h : DisjointSegs s t) : DisjointSegs t s :=
  Or.symm h

theorem DisjointSegs.shrink {s t s' t' : DetailedSeg} (h : DisjointSegs s t)
    (hs : s.minX ≤ s'.minX ∧ s'.maxX ≤ s.maxX) (ht : t.minX ≤ t'.minX ∧ t'.maxX ≤ t.maxX) :
    DisjointSegs s' t' := by
  unfold DisjointSegs at h ⊢
  omega

theorem pieces_disjoint (hinterval : interval.1 < interval.2) (reg : Int) (seg : DetailedSeg) :
    (pieces reg interval seg).Pairwise DisjointSegs := by
  rcases pieces_cases reg interval seg with ⟨-, heq⟩ | ⟨-, -, heq⟩ | ⟨-, -, -, heq⟩ |
    ⟨-, -, -, heq⟩ | ⟨hlo, hhi, heq⟩
  · rw [heq]
    exact List.pairwise_singleton _ _
  · rw [heq]
    exact List.pairwise_singleton _ _
  · rw [heq]
    exact List.pairwise_pair.mpr (Or.inl le_rfl)
  · rw [heq]
    exact List.pairwise_pair.mpr (Or.inr le_rfl)
  · rw [heq]
    refine List.pairwise_cons.mpr ⟨fun t ht => ?_, List.pairwise_pair.mpr (Or.inl le_rfl)⟩
    rcases List.mem_pair.mp ht with rfl | rfl
    · exact Or.inl le_rfl
    · exact Or.inl hinterval.le

/-- What does not cross the ends of the interval stays in one piece. -/
theorem pieces_hold (reg : Int) {x y : Int} (hlo : y ≤ interval.1 ∨ interval.1 ≤ x)
    (hhi : y ≤ interval.2 ∨ interval.2 ≤ x) (hholds : seg.Holds x y) : ∃ piece ∈ pieces reg interval seg, piece.Holds x y := by
  obtain ⟨hmin, hmax⟩ := hholds
  rcases pieces_cases reg interval seg with ⟨-, heq⟩ | ⟨-, -, heq⟩ | ⟨-, -, hr, heq⟩ |
    ⟨hl, -, -, heq⟩ | ⟨-, -, heq⟩
  · exact ⟨seg, by rw [heq]; exact List.mem_singleton_self _, hmin, hmax⟩
  · exact ⟨⟨seg.minX, seg.maxX, reg⟩, by rw [heq]; exact List.mem_singleton_self _, hmin, hmax⟩
  · rw [heq]
    rcases hlo with h | h
    · exact ⟨_, List.mem_cons_self, hmin, h⟩
    · exact ⟨_, List.mem_cons_of_mem _ List.mem_cons_self, h, hmax⟩
  · rw [heq]
    rcases hhi with h | h
    · exact ⟨_, List.mem_cons_of_mem _ List.mem_cons_self, hmin, h⟩
    · exact ⟨_, List.mem_cons_self, h, hmax⟩
  · rw [heq]
    rcases hlo with h | h
    · exact ⟨_, List.mem_cons_self, hmin, h⟩
    · rcases hhi with h' | h'
      · exact ⟨_, List.mem_cons_of_mem _ List.mem_cons_self, h, h'⟩
      · exact ⟨_, List.mem_cons_of_mem _ (List.mem_cons_of_mem _ List.mem_cons_self), h', hmax⟩

/-! ### The scan -/

/-- Scanning a segment that the scan added changes nothing. -/
theorem slice_added (hinterval : interval.1 < interval.2)
    {added : DetailedSeg} (h : added ∈ (sliceSegment reg interval seg).2) :
    sliceSegment reg interval added = (added, []) := by
  unfold sliceSegment at h
  dsimp only at h
  split_ifs at h with h1 h2 h3 h4
  · cases h
  · cases h
  · rw [List.mem_singleton] at h
    subst h
    unfold sliceSegment
    dsimp only
    rw [if_neg (by omega), if_pos (by omega)]
  · rw [List.mem_singleton] at h
    subst h
    unfold sliceSegment
    dsimp only
    rw [if_neg (by omega), if_pos (by omega)]
  · rw [List.mem_pair] at h
    rcases h with rfl | rfl
    · unfold sliceSegment
      dsimp only
      rw [if_neg (by omega), if_pos (by omega)]
    · unfold sliceSegment
      dsimp only
      rw [if_pos (Or.inl le_rfl)]

theorem scanSegments_added (fuel : Nat) : ∀ scanned left : List DetailedSeg,
    (∀ s ∈ left, sliceSegment reg interval s = (s, [])) →
    scanSegments reg interval fuel scanned left = scanned ++ left := by
  induction fuel with
  | zero => exact fun _ _ _ => rfl
  | succ fuel ih =>
      intro scanned left hleft
      cases left with
      | nil => exact (List.append_nil _).symm
      | cons s left =>
          have hs := hleft s List.mem_cons_self
          rw [scanSegments, hs]
          dsimp only
          rw [List.append_nil, ih _ left fun t ht => hleft t (List.mem_cons_of_mem _ ht),
            List.append_assoc, List.singleton_append]

/-- The scan slices each segment of the row once, and leaves what it adds at the end. -/
theorem scanSegments_eq (hinterval : interval.1 < interval.2) (segs : List DetailedSeg) :
    ∀ (fuel : Nat) (scanned added : List DetailedSeg), segs.length ≤ fuel →
      (∀ s ∈ segs, s.minX < s.maxX) → (∀ s ∈ added, sliceSegment reg interval s = (s, [])) →
      scanSegments reg interval fuel scanned (segs ++ added) =
        scanned ++ segs.map (fun s => (sliceSegment reg interval s).1) ++ added ++
          segs.flatMap fun s => (sliceSegment reg interval s).2 := by
  induction segs with
  | nil =>
      intro fuel scanned added _ _ hadded
      rw [List.nil_append, scanSegments_added fuel scanned added hadded]
      simp
  | cons s segs ih =>
      intro fuel scanned added hfuel hsegs hadded
      cases fuel with
      | zero => cases hfuel
      | succ fuel =>
          rw [List.cons_append, scanSegments, List.append_assoc segs, ih fuel _ _ (Nat.le_of_succ_le_succ hfuel)
            (fun t ht => hsegs t (List.mem_cons_of_mem _ ht)) fun t ht => ?_]
          · simp [List.append_assoc]
          · rcases List.mem_append.mp ht with ht | ht
            · exact hadded t ht
            · exact slice_added hinterval ht

/-- Slicing a row gives the pieces of its segments, in some order. -/
theorem sliceRow_perm (hinterval : interval.1 < interval.2) {segs : List DetailedSeg}
    (hsegs : ∀ s ∈ segs, s.minX < s.maxX) :
    (sliceRow reg segs interval).Perm (segs.flatMap (pieces reg interval)) := by
  have heq := @scanSegments_eq reg _ hinterval segs (3 * segs.length) [] [] (by omega) hsegs
    fun s hs => absurd hs List.not_mem_nil
  unfold sliceRow
  rw [List.append_nil] at heq
  rw [heq, List.nil_append, List.append_nil]
  exact List.map_append_flatMap_perm segs _ _

/-! ### All intervals -/

/-- The range does not cross the ends of an interval. -/
def Along (x y : Int) (interval : Int × Int) : Prop :=
  (y ≤ interval.1 ∨ interval.1 ≤ x) ∧ (y ≤ interval.2 ∨ interval.2 ≤ x)

/-- The segments of a row after some intervals, each with its region. -/
structure Sliced (base : List DetailedSeg) (done : List (Int × Int × Int))
    (segs : List DetailedSeg) : Prop where
  lt : ∀ seg ∈ segs, seg.minX < seg.maxX
  within : ∀ seg ∈ segs, ∃ b ∈ base, b.minX ≤ seg.minX ∧ seg.maxX ≤ b.maxX
  disjoint : segs.Pairwise DisjointSegs
  holds : ∀ x y, (∀ d ∈ done, Along x y d.2) → (∃ b ∈ base, b.Holds x y) →
    ∃ seg ∈ segs, seg.Holds x y
  region : ∀ seg ∈ segs, seg.InRegion done

/-- A piece knows its region when its segment does. -/
theorem InRegion.piece {done : List (Int × Int × Int)} (hinterval : interval.1 < interval.2)
    (hseg : seg.minX < seg.maxX) (h : seg.InRegion done) {piece : DetailedSeg}
    (hpiece : piece ∈ pieces reg interval seg) : piece.InRegion (done ++ [(reg, interval)]) := by
  obtain ⟨-, hmin, hmax, ⟨hreg, hinside⟩ | ⟨hreg, hbeside⟩⟩ := mem_pieces hinterval hseg hpiece
  · exact Or.inr ⟨(reg, interval), List.mem_append_right _ (List.mem_singleton_self _), hreg,
      hinside⟩
  · rcases h with ⟨hnone, hall⟩ | ⟨d, hd, hdreg, hlo, hhi⟩
    · refine Or.inl ⟨hreg.trans hnone, fun d hd => ?_⟩
      rcases List.mem_append.mp hd with hd | hd
      · exact (hall d hd).imp hmax.trans fun h => h.trans hmin
      · obtain rfl := List.mem_singleton.mp hd
        exact hbeside.symm
    · exact Or.inr ⟨d, List.mem_append_left _ hd, hreg.trans hdreg, hlo.trans hmin, hmax.trans hhi⟩

/-- One interval slices a row as the pieces of its segments say. -/
theorem Sliced.slice {base segs : List DetailedSeg} {done : List (Int × Int × Int)}
    (h : Sliced base done segs) (hinterval : interval.1 < interval.2) (reg : Int) :
    Sliced base (done ++ [(reg, interval)]) (sliceRow reg segs interval) := by
  have hperm := @sliceRow_perm reg _ hinterval _ h.lt
  have hmem : ∀ piece ∈ sliceRow reg segs interval,
      ∃ seg ∈ segs, piece ∈ pieces reg interval seg := fun piece hpiece =>
    List.mem_flatMap.mp (hperm.mem_iff.mp hpiece)
  have hwithin : ∀ seg ∈ segs, ∀ piece ∈ pieces reg interval seg,
      seg.minX ≤ piece.minX ∧ piece.maxX ≤ seg.maxX := fun seg hseg piece hpiece => by
    obtain ⟨-, hmin, hmax, -⟩ := mem_pieces hinterval (h.lt seg hseg) hpiece
    exact ⟨hmin, hmax⟩
  exact {
    lt := fun piece hpiece => by
      obtain ⟨seg, hseg, hpiece⟩ := hmem piece hpiece
      exact (mem_pieces hinterval (h.lt seg hseg) hpiece).1
    within := fun piece hpiece => by
      obtain ⟨seg, hseg, hpiece⟩ := hmem piece hpiece
      obtain ⟨b, hb, hlo, hhi⟩ := h.within seg hseg
      obtain ⟨hmin, hmax⟩ := hwithin seg hseg piece hpiece
      exact ⟨b, hb, hlo.trans hmin, hmax.trans hhi⟩
    disjoint := by
      refine (hperm.pairwise_iff DisjointSegs.symm).mpr (List.pairwise_flatMap.mpr
        ⟨fun seg _ => pieces_disjoint hinterval reg seg, ?_⟩)
      exact h.disjoint.imp_of_mem fun hs ht hst p hp q hq =>
        hst.shrink (hwithin _ hs p hp) (hwithin _ ht q hq)
    holds := fun x y halong hbase => by
      obtain ⟨seg, hseg, hholds⟩ := h.holds x y (fun d hd => halong d (List.mem_append_left _ hd))
        hbase
      obtain ⟨hlo, hhi⟩ := halong (reg, interval)
        (List.mem_append_right _ (List.mem_singleton_self _))
      obtain ⟨piece, hpiece, hholds⟩ := pieces_hold reg hlo hhi hholds
      exact ⟨piece, hperm.mem_iff.mpr (List.mem_flatMap.mpr ⟨seg, hseg, hpiece⟩), hholds⟩
    region := fun piece hpiece => by
      obtain ⟨seg, hseg, hpiece⟩ := hmem piece hpiece
      exact InRegion.piece hinterval (h.lt seg hseg) (h.region seg hseg) hpiece }

theorem Sliced.foldl {base : List DetailedSeg} (intervals : List (Int × Int × Int)) :
    ∀ (done : List (Int × Int × Int)) (segs : List DetailedSeg), Sliced base done segs →
      (∀ d ∈ intervals, d.2.1 < d.2.2) →
      Sliced base (done ++ intervals)
        (intervals.foldl (fun segs d => sliceRow d.1 segs d.2) segs) := by
  induction intervals with
  | nil =>
      intro done segs h _
      rw [List.append_nil]
      exact h
  | cons d intervals ih =>
      intro done segs h hlt
      have hstep := ih _ _ (h.slice (hlt d List.mem_cons_self) d.1) fun d hd =>
        hlt d (List.mem_cons_of_mem _ hd)
      rw [List.append_assoc, List.singleton_append] at hstep
      exact hstep

variable (A : Architecture) (r : Nat)

/-- The intervals of all regions in a row, each with the id of its region. -/
def regionIntervals (S : StdSort compareIntervals) : List (Int × Int × Int) :=
  A.regions.zipIdx.flatMap fun region =>
    (A.findRegionIntervals S region.1 r).map fun interval => ((region.2 : Int), interval)

theorem sliceRegions_eq (S : StdSort compareIntervals) (segs : List DetailedSeg) :
    A.sliceRegions S r segs =
      (A.regionIntervals r S).foldl (fun segs d => sliceRow d.1 segs d.2) segs := by
  unfold sliceRegions regionIntervals
  rw [List.foldl_flatMap]
  simp only [List.foldl_map]

end Architecture

end OpenRoad.Dpl

/-!
The blockages and the segments of a row. A blockage that extends the interval it is merged with
leaves that interval its own right padding, so that the merged intervals cover what the blockages
cover where these paddings are equal.
-/

namespace OpenRoad.Dpl

open Db (Rect)

namespace ArchRow

/-- The left end of a site. -/
def site (row : ArchRow) (i : Int) : Int := row.left + i * row.siteSpacing

/-- The sites of a row lie on one side of a coordinate that is a site's. -/
theorem site_along {row : ArchRow} (hspacing : 0 < row.siteSpacing) (i k : Int) :
    row.site (i + 1) ≤ row.site k ∨ row.site k ≤ row.site i := by
  unfold site
  rcases lt_or_ge i k with h | h
  · have := mul_le_mul_of_nonneg_right (Int.add_one_le_iff.mpr h) hspacing.le
    exact Or.inl (by omega)
  · have := mul_le_mul_of_nonneg_right h hspacing.le
    exact Or.inr (by omega)

end ArchRow

namespace Architecture

variable {A : Architecture} {r : Nat}

/-! ### Whole sites -/

/-- The last site end at or before a coordinate. -/
theorem site_floor {o x s : Int} (hs : 0 < s) (hx : o ≤ x) :
    o + (x - o).tdiv s * s ≤ x ∧ ∀ i, o + i * s ≤ x → o + i * s ≤ o + (x - o).tdiv s * s := by
  rw [Int.tdiv_eq_ediv_of_nonneg (Int.sub_nonneg.mpr hx)]
  have hle := Int.ediv_mul_le (x - o) hs.ne'
  refine ⟨by omega, fun i hi => add_le_add_right (mul_le_mul_of_nonneg_right ?_ hs.le) _⟩
  exact (Int.le_ediv_iff_mul_le hs).mpr (by omega)

/-- The first site start at or behind a coordinate. -/
theorem site_ceil {o x s : Int} (hs : 0 < s) (hx : o ≤ x) :
    let ix := (x - o).tdiv s
    let ix' := if o + ix * s < x then ix + 1 else ix
    x ≤ o + ix' * s ∧ ∀ i, x ≤ o + i * s → o + ix' * s ≤ o + i * s := by
  dsimp only
  rw [Int.tdiv_eq_ediv_of_nonneg (Int.sub_nonneg.mpr hx)]
  have hlt := Int.lt_ediv_add_one_mul_self (x - o) hs
  split_ifs with hceil
  · refine ⟨by omega, fun i hi => add_le_add_right (mul_le_mul_of_nonneg_right ?_ hs.le) _⟩
    refine Int.add_one_le_iff.mpr (lt_of_mul_lt_mul_right (?_ : _ < i * s) hs.le)
    omega
  · exact ⟨by omega, fun i hi => by have := Int.ediv_mul_le (x - o) hs.ne'; omega⟩

/-- Moving a segment in keeps it inside itself, and keeps the sites that it holds. -/
theorem alignSegment_spec (hspacing : 0 < (A.row r).siteSpacing) {seg : DetailedSeg}
    (hmin : (A.row r).left ≤ seg.minX) (hmax : (A.row r).left ≤ seg.maxX) :
    seg.minX ≤ (A.alignSegment r seg).minX ∧ (A.alignSegment r seg).maxX ≤ seg.maxX ∧
      ∀ i, seg.Holds ((A.row r).site i) ((A.row r).site (i + 1)) →
        (A.alignSegment r seg).Holds ((A.row r).site i) ((A.row r).site (i + 1)) := by
  obtain ⟨hlo, hfirst⟩ := site_ceil hspacing hmin
  obtain ⟨hhi, hlast⟩ := site_floor hspacing hmax
  exact ⟨hlo, hhi, fun i hholds => ⟨hfirst i hholds.1, hlast (i + 1) hholds.2⟩⟩

/-! ### Region intervals -/

/-- An interval that begins and ends at sites. -/
structure SiteInterval (row : ArchRow) (interval : Int × Int) : Prop where
  lt : interval.1 < interval.2
  first : ∃ k, interval.1 = row.site k
  last : ∃ k, interval.2 = row.site k

theorem findRegionIntervals_site (hspacing : 0 < (A.row r).siteSpacing)
    (S : StdSort compareIntervals) (rects : List Rect) :
    ∀ interval ∈ A.findRegionIntervals S rects r, SiteInterval (A.row r) interval := by
  have hextend : ∀ a b : Int × Int, SiteInterval (A.row r) a → SiteInterval (A.row r) b →
      a.1 ≤ b.1 → SiteInterval (A.row r) (a.1, b.2) := fun a b ha hb hle =>
    ⟨lt_of_le_of_lt hle hb.lt, ha.first, hb.last⟩
  refine IntervalMerge.merge_forall hextend (fun _ _ => rfl) fun interval h => ?_
  obtain ⟨rect, -, h⟩ := List.mem_filterMap.mp h
  unfold rectInterval at h
  dsimp only at h
  split_ifs at h with hspan hcorner hlt hlt
  all_goals
    obtain rfl := Option.some.inj h
    refine ⟨?_, ⟨_, rfl⟩, _, rfl⟩
    exact add_lt_add_right (mul_lt_mul_of_pos_right hlt hspacing) _

theorem regionIntervals_site (hspacing : 0 < (A.row r).siteSpacing)
    (S : StdSort compareIntervals) :
    ∀ d ∈ A.regionIntervals r S, SiteInterval (A.row r) d.2 := by
  intro d hd
  obtain ⟨region, -, hd⟩ := List.mem_flatMap.mp hd
  obtain ⟨interval, hinterval, rfl⟩ := List.mem_map.mp hd
  exact findRegionIntervals_site hspacing S region.1 interval hinterval

theorem mem_regionIntervals {S : StdSort compareIntervals} {d : Int × Int × Int} :
    d ∈ A.regionIntervals r S ↔ ∃ (reg : Nat) (rects : List Rect), A.regions[reg]? = some rects ∧
      d.1 = reg ∧ d.2 ∈ A.findRegionIntervals S rects r := by
  unfold regionIntervals
  rw [List.mem_flatMap]
  constructor
  · rintro ⟨⟨rects, reg⟩, hregion, hd⟩
    obtain ⟨interval, hinterval, rfl⟩ := List.mem_map.mp hd
    exact ⟨reg, rects, List.mem_zipIdx_iff_getElem?.mp hregion, rfl, hinterval⟩
  · rintro ⟨reg, rects, hrects, hreg, hinterval⟩
    exact ⟨(rects, reg), List.mem_zipIdx_iff_getElem?.mpr hrects,
      List.mem_map.mpr ⟨d.2, hinterval, Prod.ext hreg.symm rfl⟩⟩

/-! ### Merged blockages -/

/-- What is true of the blockages of a row, and stays true when they are merged. -/
structure Clipped (A : Architecture) (blk : Blockage) : Prop where
  left : 0 ≤ blk.padLeft
  right : 0 ≤ blk.padRight
  ends : blk.getPaddedXMin ≤ blk.xMax ∨ blk.getPaddedXMin ≤ A.minX ∨ A.maxX ≤ blk.xMax

theorem Clipped.extendTo {a b : Blockage} (ha : Clipped A a) (hb : Clipped A b)
    (hle : a.getPaddedXMin ≤ b.getPaddedXMin) : Clipped A (a.extendTo b) where
  left := ha.left
  right := ha.right
  ends := by
    show a.getPaddedXMin ≤ b.xMax ∨ a.getPaddedXMin ≤ A.minX ∨ A.maxX ≤ b.xMax
    have := hb.ends
    omega

theorem Clipped.straight {b : Blockage} (h : Clipped A b) : A.Straight r b := by
  have hright := h.right
  have hends := h.ends
  unfold Straight rowMin rowMax
  unfold Blockage.getPaddedXMax
  omega

theorem getCellSpacing_nonneg (leftNode rightNode : Option FixedCell) :
    0 ≤ A.getCellSpacing leftNode rightNode := by
  unfold getCellSpacing
  split_ifs
  · exact le_max_left _ _
  · exact le_rfl

theorem clipped_of_bounds {lo hi padLeft padRight : Int} (h : lo ≤ hi) (hleft : 0 ≤ padLeft)
    (hright : 0 ≤ padRight) : Clipped A ⟨max A.minX lo, min A.maxX hi, padLeft, padRight⟩ where
  left := hleft
  right := hright
  ends := by
    unfold Blockage.getPaddedXMin
    dsimp only
    omega

theorem clipped_rowBlockages {fixedCells : List FixedCell} {blockages : List Rect}
    (hcells : ∀ nd ∈ fixedCells, nd.left ≤ nd.right)
    (hrects : ∀ rect ∈ blockages, rect.xMin ≤ rect.xMax) :
    ∀ b ∈ A.rowBlockages fixedCells blockages r, Clipped A b := by
  intro b hb
  rcases List.mem_append.mp hb with hb | hb
  · obtain ⟨nd, hnd, hb⟩ := List.mem_filterMap.mp hb
    unfold cellBlockage at hb
    dsimp only at hb
    split_ifs at hb
    obtain rfl := Option.some.inj hb
    exact clipped_of_bounds (hcells nd hnd) (getCellSpacing_nonneg _ _) (getCellSpacing_nonneg _ _)
  · obtain ⟨rect, hrect, hb⟩ := List.mem_filterMap.mp hb
    unfold placementBlockage at hb
    dsimp only at hb
    split_ifs at hb
    obtain rfl := Option.some.inj hb
    exact clipped_of_bounds (hrects rect hrect) le_rfl le_rfl

/-! ### The row -/

/-- The blockages of a row are sorted and apart, and cover with their padding what the blockages
found in the row cover. -/
structure Merged (found blockages : List Blockage) : Prop where
  apart : Apart blockages
  covers : ∀ x, (∃ b ∈ blockages, b.getPaddedXMin ≤ x ∧ x < b.getPaddedXMax) ↔
    ∃ b ∈ found, b.getPaddedXMin ≤ x ∧ x < b.getPaddedXMax

/-- The segments of a row are apart from each other and from the blockages, hold the sites of the
row that are free of blockages, and are each in an interval of their region, or beside the intervals
of all regions when they have none. -/
structure Segmented (A : Architecture) (r : Nat) (S : StdSort compareIntervals)
    (blockages : List Blockage) (segs : List DetailedSeg) : Prop where
  disjoint : segs.Pairwise DisjointSegs
  outside : ∀ seg ∈ segs, ∀ b ∈ blockages, b.Outside seg.minX seg.maxX
  sites : ∀ i, 0 ≤ i → i < (A.row r).numSites →
    (∀ b ∈ blockages, b.Outside ((A.row r).site i) ((A.row r).site (i + 1))) →
    ∃ seg ∈ segs, seg.Holds ((A.row r).site i) ((A.row r).site (i + 1))
  region : ∀ seg ∈ segs,
    (seg.regId = -1 ∧ ∀ rects ∈ A.regions, ∀ interval ∈ A.findRegionIntervals S rects r,
      seg.Beside interval) ∨
    ∃ (reg : Nat) (rects : List Rect), A.regions[reg]? = some rects ∧ seg.regId = reg ∧
      ∃ interval ∈ A.findRegionIntervals S rects r, seg.Inside interval

/-- What `Architecture` ensures about a row when the rows are read. -/
structure RowOk (A : Architecture) (r : Nat) : Prop where
  spacing : 0 < (A.row r).siteSpacing
  left : A.minX ≤ (A.row r).left
  right : (A.row r).right ≤ A.maxX

theorem sliceRegions_sliced (h : RowOk A r) (S : StdSort compareIntervals)
    {blockages : List Blockage} (hapart : Apart blockages)
    (hstraight : ∀ b ∈ blockages, A.Straight r b) :
    Sliced (A.divideRow r blockages) (A.regionIntervals r S)
      (A.sliceRegions S r (A.divideRow r blockages)) := by
  have hdivided := divideRow_spec hapart hstraight
  have hbase : Sliced (A.divideRow r blockages) [] (A.divideRow r blockages) := {
    lt := fun seg hseg => (hdivided.fresh seg hseg).lt
    within := fun seg hseg => ⟨seg, hseg, le_rfl, le_rfl⟩
    disjoint := hdivided.apart.imp Or.inl
    holds := fun _ _ _ hholds => hholds
    region := fun seg hseg =>
      Or.inl ⟨(hdivided.fresh seg hseg).regId, fun d hd => absurd hd List.not_mem_nil⟩ }
  rw [sliceRegions_eq]
  exact Sliced.foldl _ [] _ hbase fun d hd => (regionIntervals_site h.spacing S d hd).lt

/-- The segments between blockages that are sorted and apart. -/
theorem findSegments_segmented (h : RowOk A r) (S : StdSort compareIntervals)
    {blockages : List Blockage} (hapart : Apart blockages)
    (hstraight : ∀ b ∈ blockages, A.Straight r b) :
    Segmented A r S blockages (A.findSegments S blockages r) := by
  have hdivided := divideRow_spec hapart hstraight
  have hsliced := sliceRegions_sliced h S hapart hstraight
  -- the end of a row is not moved below its beginning
  have hleft : ∀ seg ∈ A.sliceRegions S r (A.divideRow r blockages),
      (A.row r).left ≤ seg.minX ∧ (A.row r).left ≤ seg.maxX := fun seg hseg => by
    obtain ⟨b, hb, hmin, -⟩ := hsliced.within seg hseg
    have hlt := hsliced.lt seg hseg
    have hrow := (hdivided.fresh b hb).min
    unfold rowMin at hrow
    omega
  have halign : ∀ seg ∈ A.sliceRegions S r (A.divideRow r blockages), _ := fun seg hseg =>
    alignSegment_spec h.spacing (hleft seg hseg).1 (hleft seg hseg).2
  unfold findSegments
  exact {
    disjoint := List.pairwise_map.mpr (hsliced.disjoint.imp_of_mem fun hs ht hst =>
      hst.shrink ⟨(halign _ hs).1, (halign _ hs).2.1⟩ ⟨(halign _ ht).1, (halign _ ht).2.1⟩)
    outside := fun seg' hseg' b hb => by
      obtain ⟨seg, hseg, rfl⟩ := List.mem_map.mp hseg'
      obtain ⟨base, hbase, hmin, hmax⟩ := hsliced.within seg hseg
      obtain ⟨hlo, hhi, -⟩ := halign seg hseg
      exact (hdivided.outside base hbase b hb).imp (fun hle => by omega) fun hle => by omega
    sites := fun i hi hlt hfree => by
      have hlo := mul_nonneg hi h.spacing.le
      have hhi := mul_le_mul_of_nonneg_right (Int.add_one_le_iff.mpr hlt) h.spacing.le
      have hmin := h.left
      have hmax := h.right
      have hwidth : (A.row r).site i < (A.row r).site (i + 1) :=
        add_lt_add_right (mul_lt_mul_of_pos_right (Int.lt_succ i) h.spacing) _
      have hbase := hdivided.holds ((A.row r).site i) ((A.row r).site (i + 1)) hwidth
        (by unfold rowMin ArchRow.site; omega)
        (by unfold rowMax ArchRow.site; unfold ArchRow.right at *; omega) hfree
      obtain ⟨seg, hseg, hholds⟩ := hsliced.holds _ _ (fun d hd => by
        obtain ⟨-, ⟨k, hk⟩, k', hk'⟩ := regionIntervals_site h.spacing S d hd
        unfold Along
        rw [hk, hk']
        exact ⟨ArchRow.site_along h.spacing i k, ArchRow.site_along h.spacing i k'⟩) hbase
      exact ⟨_, List.mem_map_of_mem hseg, (halign seg hseg).2.2 i hholds⟩
    region := fun seg' hseg' => by
      obtain ⟨seg, hseg, rfl⟩ := List.mem_map.mp hseg'
      obtain ⟨hlo, hhi, -⟩ := halign seg hseg
      rcases hsliced.region seg hseg with ⟨hnone, hall⟩ | ⟨d, hd, hreg, hinside⟩
      · refine Or.inl ⟨hnone, fun rects hrects interval hinterval => ?_⟩
        obtain ⟨reg, hrects⟩ := List.mem_iff_getElem?.mp hrects
        have hbeside := hall ((reg : Int), interval)
          (mem_regionIntervals.mpr ⟨reg, rects, hrects, rfl, hinterval⟩)
        exact hbeside.imp hhi.trans fun hle => hle.trans hlo
      · obtain ⟨reg, rects, hrects, hreg', hinterval⟩ := mem_regionIntervals.mp hd
        exact Or.inr ⟨reg, rects, hrects, hreg.trans hreg', d.2, hinterval,
          hinside.1.trans hlo, hhi.trans hinside.2⟩ }

/-- A blockage that extends the merged interval that it meets has the right padding of the first
blockage of that interval. -/
def PaddingKept (S : StdSort compareBlockages) (found : List Blockage) : Prop :=
  IntervalMerge.MergesExactly (fun first b => first.padRight = b.padRight) S found

theorem extendTo_xMin (a b : Blockage) : (a.extendTo b).getPaddedXMin = a.getPaddedXMin := rfl

theorem extendTo_xMax {a b : Blockage} (h : a.padRight = b.padRight) :
    (a.extendTo b).getPaddedXMax = b.getPaddedXMax := congrArg (b.xMax + ·) h

theorem findBlockages_apart (S : StdSort compareBlockages) (fixedCells : List FixedCell)
    (blockages : List Rect) : Apart (A.findBlockages S fixedCells blockages r) :=
  IntervalMerge.merge_apart extendTo_xMin _

theorem findBlockages_straight (S : StdSort compareBlockages) {fixedCells : List FixedCell}
    {blockages : List Rect} (hcells : ∀ nd ∈ fixedCells, nd.left ≤ nd.right)
    (hrects : ∀ rect ∈ blockages, rect.xMin ≤ rect.xMax) :
    ∀ b ∈ A.findBlockages S fixedCells blockages r, A.Straight r b := fun b hb =>
  (IntervalMerge.merge_forall (fun _ _ ha hb hle => Clipped.extendTo ha hb hle) extendTo_xMin
    (clipped_rowBlockages hcells hrects) b hb).straight

/-- Where blockages that are merged keep their padding, the blockages and the segments of a row are
as they should be. -/
theorem findSegments_of_paddingKept (S : StdSort compareBlockages) (S' : StdSort compareIntervals)
    (fixedCells : List FixedCell) (blockages : List Rect) (h : RowOk A r)
    (hcells : ∀ nd ∈ fixedCells, nd.left ≤ nd.right)
    (hrects : ∀ rect ∈ blockages, rect.xMin ≤ rect.xMax)
    (hkept : PaddingKept S (A.rowBlockages fixedCells blockages r)) :
    Merged (A.rowBlockages fixedCells blockages r) (A.findBlockages S fixedCells blockages r) ∧
      Segmented A r S' (A.findBlockages S fixedCells blockages r)
        (A.findSegments S' (A.findBlockages S fixedCells blockages r) r) := by
  have hapart := findBlockages_apart (A := A) (r := r) S fixedCells blockages
  refine ⟨⟨hapart, fun x => ?_⟩, findSegments_segmented h S' hapart
    (findBlockages_straight S hcells hrects)⟩
  exact IntervalMerge.merge_covers extendTo_xMin (fun _ _ _ => Iff.rfl)
    (fun _ _ => extendTo_xMax) hkept x

/-! ### Fixed cells side by side -/

/-- One row of a hundred sites with a region in its middle. -/
def oneRow : Architecture where
  minX := 0
  maxX := 100
  minY := 0
  maxY := 10
  row := fun _ => ⟨0, 0, 10, 1, 100⟩
  singleRowHeight := 10
  regions := [[], [⟨40, 0, 60, 10⟩]]
  usePadding := true

def blockSort : StdSort compareBlockages :=
  IntervalMerge.insertSort Blockage.getPaddedXMin Blockage.getPaddedXMax

def intervalSort : StdSort compareIntervals := IntervalMerge.insertSort Prod.fst Prod.snd

/-- A cell of the row with right padding. -/
def paddedCell (left right rightPadding : Int) : FixedCell :=
  ⟨false, left, right, 0, 10, 0, rightPadding⟩

/-- Two cells with the same right padding next to each other, and a placement blockage. -/
theorem findSegments_same_padding :
    let found := oneRow.rowBlockages [paddedCell 0 10 5, paddedCell 10 18 5] [⟨70, 0, 80, 10⟩] 0
    let blockages :=
      oneRow.findBlockages blockSort [paddedCell 0 10 5, paddedCell 10 18 5] [⟨70, 0, 80, 10⟩] 0
    Merged found blockages ∧
      Segmented oneRow 0 intervalSort blockages (oneRow.findSegments intervalSort blockages 0) := by
  refine findSegments_of_paddingKept blockSort intervalSort _ _ ⟨?_, ?_, ?_⟩ ?_ ?_ ?_
  · decide
  · decide
  · decide
  · decide
  · decide
  · exact ⟨fun _ => rfl, trivial⟩

/-- A cell without padding in front of a padded one: the padding is lost, and a segment begins in
it. -/
theorem not_findBlockages_merged :
    ¬Merged (oneRow.rowBlockages [paddedCell 0 10 0, paddedCell 10 18 5] [] 0)
      (oneRow.findBlockages blockSort [paddedCell 0 10 0, paddedCell 10 18 5] [] 0) := by
  intro h
  obtain ⟨b, hb, -, hlt⟩ := (h.covers 20).mpr ⟨⟨10, 18, 0, 5⟩, by decide, by decide, by decide⟩
  obtain rfl := List.mem_singleton.mp hb
  exact absurd hlt (by decide)

end Architecture

end OpenRoad.Dpl
