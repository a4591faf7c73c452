import OpenRoad.DbGeometry
import Mathlib.Tactic.Ring
import Mathlib.Tactic.Common

/-!
`concat`, `invert` and `apply` of `dbTransform`. The composition table, the offsets of the inverse and
the action on points are written independently of each other; what they do to points says that they
agree, and as a transform is known by what it does to points, the laws of a group follow.
-/

namespace OpenRoad.Db

namespace Orient

/-- The orientations in the order of their values. -/
def toNat : Orient → Nat
  | .R0 => 0
  | .R90 => 1
  | .R180 => 2
  | .R270 => 3
  | .MY => 4
  | .MYR90 => 5
  | .MX => 6
  | .MXR90 => 7

/-- `orientMul` -/
def mulTable : List (List Orient) :=
  [[.R0, .R90, .R180, .R270, .MY, .MYR90, .MX, .MXR90],
   [.R90, .R180, .R270, .R0, .MXR90, .MY, .MYR90, .MX],
   [.R180, .R270, .R0, .R90, .MX, .MXR90, .MY, .MYR90],
   [.R270, .R0, .R90, .R180, .MYR90, .MX, .MXR90, .MY],
   [.MY, .MYR90, .MX, .MXR90, .R0, .R90, .R180, .R270],
   [.MYR90, .MX, .MXR90, .MY, .R270, .R0, .R90, .R180],
   [.MX, .MXR90, .MY, .MYR90, .R180, .R270, .R0, .R90],
   [.MXR90, .MY, .MYR90, .MX, .R90, .R180, .R270, .R0]]

/-- The entry of the table for two orientations. -/
def mul (a b : Orient) : Orient := ((mulTable.getD a.toNat []).getD b.toNat .R0)

/-- The orientation turns clockwise rings into counter-clockwise ones. -/
def mirrored : Orient → Bool
  | .R0 | .R90 | .R180 | .R270 => false
  | .MY | .MYR90 | .MX | .MXR90 => true

theorem mirrored_mul (a b : Orient) : (a.mul b).mirrored = (a.mirrored ^^ b.mirrored) := by
  cases a <;> cases b <;> rfl

end Orient

namespace Transform

/-- `concat`: post multiply. -/
def concat (s t : Transform) : Transform := ⟨s.orient.mul t.orient, t.applyPoint s.offset⟩

/-- The transform that changes nothing. -/
def identity : Transform := ⟨.R0, ⟨0, 0⟩⟩

/-- `invert` -/
def invert (t : Transform) : Transform :=
  let offset : Point := ⟨-t.offset.x, -t.offset.y⟩
  match t.orient with
  | .R0 => ⟨.R0, offset⟩
  | .R90 => ⟨.R270, offset.rotate270⟩
  | .R180 => ⟨.R180, offset.rotate180⟩
  | .R270 => ⟨.R90, offset.rotate90⟩
  | .MY => ⟨.MY, ⟨-offset.x, offset.y⟩⟩
  | .MYR90 => ⟨.MYR90, Point.rotate90 ⟨-offset.x, offset.y⟩⟩
  | .MX => ⟨.MX, ⟨offset.x, -offset.y⟩⟩
  | .MXR90 => ⟨.MXR90, Point.rotate90 ⟨offset.x, -offset.y⟩⟩

/-! ### Points -/

variable (s t u : Transform) (p q : Point)

theorem apply_identity : identity.applyPoint p = p := by
  simp [identity, applyPoint]

theorem apply_concat : (s.concat t).applyPoint p = t.applyPoint (s.applyPoint p) := by
  obtain ⟨a, ox, oy⟩ := s
  obtain ⟨b, px, py⟩ := t
  cases a <;> cases b <;>
    simp only [concat, Orient.mul, Orient.mulTable, Orient.toNat, applyPoint, Point.rotate90,
      Point.rotate180, Point.rotate270, List.getD_cons_zero, List.getD_cons_succ, Point.mk.injEq] <;>
    constructor <;> ring

theorem apply_invert_apply : t.invert.applyPoint (t.applyPoint p) = p := by
  obtain ⟨a, ox, oy⟩ := t
  obtain ⟨x, y⟩ := p
  cases a <;>
    simp only [invert, applyPoint, Point.rotate90, Point.rotate180, Point.rotate270, Point.mk.injEq] <;>
    constructor <;> ring

theorem apply_apply_invert : t.applyPoint (t.invert.applyPoint p) = p := by
  obtain ⟨a, ox, oy⟩ := t
  obtain ⟨x, y⟩ := p
  cases a <;>
    simp only [invert, applyPoint, Point.rotate90, Point.rotate180, Point.rotate270, Point.mk.injEq] <;>
    constructor <;> ring

variable {s t p q}

/-- A transform is known by what it does to three points. -/
theorem eq_of_apply (h : ∀ p, s.applyPoint p = t.applyPoint p) : s = t := by
  obtain ⟨a, ox, oy⟩ := s
  obtain ⟨b, px, py⟩ := t
  have hzero := h ⟨0, 0⟩
  have hx := h ⟨1, 0⟩
  have hy := h ⟨0, 1⟩
  cases a <;> cases b <;>
    simp only [applyPoint, Point.rotate90, Point.rotate180, Point.rotate270, Point.mk.injEq,
      Transform.mk.injEq, true_and, reduceCtorEq, false_and] at hzero hx hy ⊢ <;>
    omega

theorem concat_assoc (s t u : Transform) : (s.concat t).concat u = s.concat (t.concat u) :=
  eq_of_apply fun p => by rw [apply_concat, apply_concat, apply_concat, apply_concat]

theorem concat_invert (t : Transform) : t.concat t.invert = identity :=
  eq_of_apply fun p => by rw [apply_concat, apply_invert_apply, apply_identity]

theorem invert_concat (t : Transform) : t.invert.concat t = identity :=
  eq_of_apply fun p => by rw [apply_concat, apply_apply_invert, apply_identity]

/-! ### Rectangles -/

end Transform

/-- The point is in the rectangle or on its border. -/
def Rect.Mem (r : Rect) (p : Point) : Prop :=
  (r.xMin ≤ p.x ∧ p.x ≤ r.xMax) ∧ r.yMin ≤ p.y ∧ p.y ≤ r.yMax

/-- The edges are in order. -/
structure Rect.Ordered (r : Rect) : Prop where
  x : r.xMin ≤ r.xMax
  y : r.yMin ≤ r.yMax

theorem Rect.ordered_init (x1 y1 x2 y2 : Int) : (Rect.init x1 y1 x2 y2).Ordered :=
  ⟨min_le_max, min_le_max⟩

namespace Transform

variable (s t : Transform) {r : Rect}

/-- A point is in the image of a rectangle when it comes from a point of it. -/
theorem mem_applyRect (h : r.Ordered) (p : Point) :
    (t.applyRect r).Mem (t.applyPoint p) ↔ r.Mem p := by
  obtain ⟨a, ox, oy⟩ := t
  obtain ⟨x1, y1, x2, y2⟩ := r
  obtain ⟨hx, hy⟩ := h
  dsimp only at hx hy
  cases a <;>
    simp only [applyRect, applyPoint, Point.rotate90, Point.rotate180, Point.rotate270, Rect.init,
      Rect.Mem, min_le_iff, le_max_iff] <;>
    omega

/-- The rectangle that `apply` returns is the image. -/
theorem mem_applyRect_iff (h : r.Ordered) (p : Point) :
    (t.applyRect r).Mem p ↔ ∃ q, r.Mem q ∧ t.applyPoint q = p := by
  constructor
  · intro hp
    refine ⟨t.invert.applyPoint p, (mem_applyRect t h _).mp ?_, apply_apply_invert t p⟩
    rw [apply_apply_invert]
    exact hp
  · rintro ⟨q, hq, rfl⟩
    exact (mem_applyRect t h q).mpr hq

/-- Any two opposite corners may be transformed in place of the lower left and the upper right one. -/
theorem applyRect_init (p q : Point) : t.applyRect (Rect.init p.x p.y q.x q.y) =
    Rect.init (t.applyPoint p).x (t.applyPoint p).y (t.applyPoint q).x (t.applyPoint q).y := by
  obtain ⟨a, ox, oy⟩ := t
  cases a <;>
    simp only [applyRect, applyPoint, Point.rotate90, Point.rotate180, Point.rotate270, Rect.init,
      Rect.mk.injEq] <;>
    omega

theorem applyRect_concat (r : Rect) : (s.concat t).applyRect r = t.applyRect (s.applyRect r) := by
  have hinit := applyRect_init t (s.applyPoint ⟨r.xMin, r.yMin⟩) (s.applyPoint ⟨r.xMax, r.yMax⟩)
  rw [← apply_concat, ← apply_concat] at hinit
  exact hinit.symm

theorem applyRect_invert (h : r.Ordered) : t.invert.applyRect (t.applyRect r) = r := by
  rw [← applyRect_concat, concat_invert]
  obtain ⟨x1, y1, x2, y2⟩ := r
  obtain ⟨hx, hy⟩ := h
  simp only [applyRect, apply_identity, Rect.init, min_eq_left hx, min_eq_left hy, max_eq_right hx,
    max_eq_right hy]

/-! ### Rings -/

end Transform

/-- Twice the area between an edge and the y axis, positive where the edge goes down. -/
def edgeArea (a b : Point) : Int := (a.x + b.x) * (a.y - b.y)

/-- The sum over the edges of a chain of points. -/
def edgeSum : List Point → Int
  | a :: b :: ps => edgeArea a b + edgeSum (b :: ps)
  | _ => 0

/-- Twice the area of a closed ring, positive where it is clockwise; a ring with fewer than four points
has none. -/
def ringArea (ps : List Point) : Int := if ps.length < 4 then 0 else edgeSum ps

/-- Append the first point unless it is also the last. -/
def closeRing (ps : List Point) : List Point :=
  if 2 < ps.length ∧ ps.head? ≠ ps.getLast? then ps ++ ps.head?.toList else ps

/-- What `boost::geometry::correct` is documented to do to a ring of points that is registered as closed
and clockwise: it is closed, and reversed if it is counter-clockwise. -/
structure CorrectsRings (correct : List Point → List Point) : Prop where
  eq : ∀ ps, correct ps =
    if ringArea (closeRing ps) < 0 then (closeRing ps).reverse else closeRing ps

/-- `Polygon::setPoints` -/
def setPoints (correct : List Point → List Point) (ps : List Point) : List Point := correct ps

/-- `apply` of a transform to the points of a polygon. -/
def Transform.applyPolygon (correct : List Point → List Point) (t : Transform) (ps : List Point) :
    List Point := setPoints correct (ps.map t.applyPoint)

/-- A ring as `setPoints` leaves it. -/
structure RingOk (ps : List Point) : Prop where
  closed : closeRing ps = ps
  clockwise : 0 ≤ ringArea ps

theorem edgeSum_concat (ps : List Point) (a b : Point) :
    edgeSum (ps ++ [a, b]) = edgeSum (ps ++ [a]) + edgeArea a b := by
  induction ps with
  | nil => exact (Int.add_comm _ _).trans rfl
  | cons c ps ih =>
      cases ps with
      | nil =>
          change edgeArea c a + (edgeArea a b + 0) = edgeArea c a + 0 + edgeArea a b
          omega
      | cons d ps =>
          change edgeArea c d + edgeSum (d :: ps ++ [a, b]) =
            edgeArea c d + edgeSum (d :: ps ++ [a]) + edgeArea a b
          omega

theorem edgeSum_reverse (ps : List Point) : edgeSum ps.reverse = -edgeSum ps := by
  induction ps with
  | nil => rfl
  | cons a ps ih =>
      cases ps with
      | nil => rfl
      | cons b ps =>
          have hedge : edgeArea b a = -edgeArea a b := by
            rw [edgeArea, edgeArea]
            ring
          rw [List.reverse_cons] at ih
          rw [List.reverse_cons, List.reverse_cons, List.append_assoc]
          change edgeSum (ps.reverse ++ [b, a]) = -(edgeArea a b + edgeSum (b :: ps))
          rw [edgeSum_concat, ih, hedge]
          omega

theorem ringArea_reverse (ps : List Point) : ringArea ps.reverse = -ringArea ps := by
  rw [ringArea, ringArea, List.length_reverse, edgeSum_reverse]
  split_ifs
  · rfl
  · rfl

theorem closed_iff {ps : List Point} :
    closeRing ps = ps ↔ (2 < ps.length → ps.head? = ps.getLast?) := by
  unfold closeRing
  split_ifs with h
  · refine iff_of_false (fun heq => ?_) fun himp => h.2 (himp h.1)
    cases ps with
    | nil => exact absurd h.1 (by simp)
    | cons a ps => simpa using congrArg List.length heq
  · refine iff_of_true rfl fun hlen => ?_
    by_contra hne
    exact h ⟨hlen, hne⟩

theorem closeRing_closed (ps : List Point) : closeRing (closeRing ps) = closeRing ps := by
  rw [closed_iff]
  unfold closeRing
  split_ifs with h
  · intro _
    cases ps with
    | nil => rfl
    | cons a ps => exact (List.getLast?_concat (l := a :: ps)).symm
  · intro hlen
    by_contra hne
    exact h ⟨hlen, hne⟩

theorem closed_reverse {ps : List Point} (h : closeRing ps = ps) :
    closeRing ps.reverse = ps.reverse := by
  rw [closed_iff] at h ⊢
  rw [List.length_reverse, List.head?_reverse, List.getLast?_reverse]
  exact fun hlen => (h hlen).symm

section polygon

variable {correct : List Point → List Point} (hcorrect : CorrectsRings correct)

include hcorrect

/-- A ring that is closed is reversed where it is counter-clockwise. -/
theorem CorrectsRings.of_closed {ps : List Point} (h : closeRing ps = ps) :
    correct ps = if ringArea ps < 0 then ps.reverse else ps := by
  rw [hcorrect.eq, h]

theorem CorrectsRings.ringOk (ps : List Point) : RingOk (setPoints correct ps) := by
  have hclosed := closeRing_closed ps
  rw [setPoints, hcorrect.eq]
  split_ifs with harea
  · refine ⟨closed_reverse hclosed, ?_⟩
    rw [ringArea_reverse]
    omega
  · exact ⟨hclosed, not_lt.mp harea⟩

theorem CorrectsRings.of_ringOk {ps : List Point} (h : RingOk ps) : correct ps = ps := by
  rw [hcorrect.of_closed h.closed, if_neg (not_lt.mpr h.clockwise)]

end polygon

/-! ### Transformed rings -/

namespace Transform

variable (s t : Transform)

/-- The area at an edge is turned over by a mirrored transform; what else is added is the difference of
a function at its ends. -/
theorem edgeArea_apply : ∃ g : Point → Int, ∀ a b,
    edgeArea (t.applyPoint a) (t.applyPoint b) =
      (if t.orient.mirrored then -edgeArea a b else edgeArea a b) + (g a - g b) := by
  obtain ⟨o, ox, oy⟩ := t
  cases o
  · exact ⟨fun p => 2 * ox * p.y, fun a b => by
      simp only [applyPoint, edgeArea, Orient.mirrored, Bool.false_eq_true, if_false]
      ring⟩
  · exact ⟨fun p => 2 * ox * p.x - 2 * p.x * p.y, fun a b => by
      simp only [applyPoint, edgeArea, Orient.mirrored, Bool.false_eq_true, if_false, Point.rotate90]
      ring⟩
  · exact ⟨fun p => -(2 * ox * p.y), fun a b => by
      simp only [applyPoint, edgeArea, Orient.mirrored, Bool.false_eq_true, if_false, Point.rotate180]
      ring⟩
  · exact ⟨fun p => -(2 * ox * p.x) - 2 * p.x * p.y, fun a b => by
      simp only [applyPoint, edgeArea, Orient.mirrored, Bool.false_eq_true, if_false, Point.rotate270]
      ring⟩
  · exact ⟨fun p => 2 * ox * p.y, fun a b => by
      simp only [applyPoint, edgeArea, Orient.mirrored, if_true]
      ring⟩
  · exact ⟨fun p => -(2 * ox * p.x) + 2 * p.x * p.y, fun a b => by
      simp only [applyPoint, edgeArea, Orient.mirrored, if_true, Point.rotate90]
      ring⟩
  · exact ⟨fun p => -(2 * ox * p.y), fun a b => by
      simp only [applyPoint, edgeArea, Orient.mirrored, if_true]
      ring⟩
  · exact ⟨fun p => 2 * ox * p.x + 2 * p.x * p.y, fun a b => by
      simp only [applyPoint, edgeArea, Orient.mirrored, if_true, Point.rotate90]
      ring⟩

theorem edgeSum_map {g : Point → Int} {σ : Int}
    (hg : ∀ a b, edgeArea (t.applyPoint a) (t.applyPoint b) = σ * edgeArea a b + (g a - g b)) :
    ∀ (a : Point) (ps : List Point), edgeSum ((a :: ps).map t.applyPoint) =
      σ * edgeSum (a :: ps) + (g a - g ((a :: ps).getLastD a)) := by
  intro a ps
  induction ps generalizing a with
  | nil =>
      change (0 : Int) = σ * 0 + (g a - g a)
      ring
  | cons b ps ih =>
      have hrest := ih b
      have hlast : (a :: b :: ps).getLastD a = (b :: ps).getLastD b := by
        rw [List.getLastD_cons, List.getLastD_cons, List.getLastD_cons]
      change edgeArea (t.applyPoint a) (t.applyPoint b) + edgeSum ((b :: ps).map t.applyPoint) =
        σ * (edgeArea a b + edgeSum (b :: ps)) + (g a - g ((a :: b :: ps).getLastD a))
      rw [hg, hrest, hlast]
      ring

/-- A mirrored transform turns a closed ring over. -/
theorem ringArea_map {ps : List Point} (h : closeRing ps = ps) :
    ringArea (ps.map t.applyPoint) = if t.orient.mirrored then -ringArea ps else ringArea ps := by
  rw [ringArea, ringArea, List.length_map]
  by_cases hlen : ps.length < 4
  · rw [if_pos hlen, if_pos hlen]
    split_ifs
    · rfl
    · rfl
  · rw [if_neg hlen, if_neg hlen]
    obtain ⟨g, hg⟩ := t.edgeArea_apply
    have hends := closed_iff.mp h (by omega)
    cases ps with
    | nil => exact absurd (by simp) hlen
    | cons a ps =>
        have hlast : (a :: ps).getLastD a = a := by
          rw [List.getLastD_eq_getLast?, ← hends]
          rfl
        cases hm : t.orient.mirrored with
        | true =>
            have hsum := @edgeSum_map t _ (-1) (fun a b => by rw [hg, hm, if_pos rfl]; ring) a ps
            rw [hsum, hlast, if_pos rfl]
            ring
        | false =>
            have hsum := @edgeSum_map t _ 1
              (fun a b => by rw [hg, hm, if_neg Bool.false_ne_true]; ring) a ps
            rw [hsum, hlast, if_neg Bool.false_ne_true]
            ring

theorem closed_map {ps : List Point} (h : closeRing ps = ps) :
    closeRing (ps.map t.applyPoint) = ps.map t.applyPoint := by
  rw [closed_iff] at h ⊢
  rw [List.length_map, List.head?_map, List.getLast?_map]
  exact fun hlen => by rw [h hlen]

section polygon

variable {correct : List Point → List Point} (hcorrect : CorrectsRings correct)

include hcorrect

/-- The points of a clockwise ring are transformed, and their order is turned round where the transform
turns the ring over. -/
theorem applyPolygon_eq {ps : List Point} (h : RingOk ps) : t.applyPolygon correct ps =
    if t.orient.mirrored = true ∧ 0 < ringArea ps then (ps.map t.applyPoint).reverse
    else ps.map t.applyPoint := by
  have harea := t.ringArea_map h.closed
  have hclockwise := h.clockwise
  rw [applyPolygon, setPoints, hcorrect.of_closed (t.closed_map h.closed), harea]
  cases hm : t.orient.mirrored with
  | true =>
      rw [if_pos rfl]
      by_cases hpos : 0 < ringArea ps
      · rw [if_pos (by omega), if_pos ⟨rfl, hpos⟩]
      · rw [if_neg (by omega), if_neg fun hall => hpos hall.2]
  | false =>
      rw [if_neg Bool.false_ne_true, if_neg (not_lt.mpr hclockwise),
        if_neg fun hall => Bool.false_ne_true hall.1]

theorem ringArea_applyPolygon {ps : List Point} (h : RingOk ps) :
    ringArea (t.applyPolygon correct ps) = ringArea ps := by
  have harea := t.ringArea_map h.closed
  have hclockwise := h.clockwise
  rw [t.applyPolygon_eq hcorrect h]
  split_ifs with hturned
  · rw [ringArea_reverse, harea, if_pos hturned.1, Int.neg_neg]
  · rw [harea]
    split_ifs with hm
    · have hzero : ¬0 < ringArea ps := fun hpos => hturned ⟨hm, hpos⟩
      omega
    · rfl

theorem applyPolygon_concat {ps : List Point} (h : RingOk ps) :
    (s.concat t).applyPolygon correct ps = t.applyPolygon correct (s.applyPolygon correct ps) := by
  have hmap : ps.map (s.concat t).applyPoint = (ps.map s.applyPoint).map t.applyPoint := by
    rw [List.map_map]
    exact List.map_congr_left fun p _ => apply_concat s t p
  have hok : RingOk (s.applyPolygon correct ps) := hcorrect.ringOk _
  have hmirrored : (s.concat t).orient.mirrored = (s.orient.mirrored ^^ t.orient.mirrored) :=
    Orient.mirrored_mul s.orient t.orient
  rw [t.applyPolygon_eq hcorrect hok, s.ringArea_applyPolygon hcorrect h,
    (s.concat t).applyPolygon_eq hcorrect h, s.applyPolygon_eq hcorrect h, hmirrored, hmap]
  by_cases hpos : 0 < ringArea ps
  · cases s.orient.mirrored <;> cases t.orient.mirrored <;> simp [hpos]
  · simp [hpos]

theorem applyPolygon_identity {ps : List Point} (h : RingOk ps) :
    identity.applyPolygon correct ps = ps := by
  have hmap : ps.map identity.applyPoint = ps :=
    (List.map_congr_left fun p _ => apply_identity p).trans (List.map_id ps)
  rw [applyPolygon, setPoints, hmap, hcorrect.of_ringOk h]

end polygon

/-! ### The laws -/

/-- Transforms are a group under `concat` that acts on points, rectangles and polygons. -/
structure GroupLaws (correct : List Point → List Point) : Prop where
  assoc : ∀ s t u : Transform, (s.concat t).concat u = s.concat (t.concat u)
  identity_concat : ∀ t : Transform, identity.concat t = t
  concat_identity : ∀ t : Transform, t.concat identity = t
  concat_invert : ∀ t : Transform, t.concat t.invert = identity
  invert_concat : ∀ t : Transform, t.invert.concat t = identity
  applyPoint : ∀ (s t : Transform) (p : Point),
    (s.concat t).applyPoint p = t.applyPoint (s.applyPoint p)
  applyRect : ∀ (s t : Transform) (r : Rect),
    (s.concat t).applyRect r = t.applyRect (s.applyRect r)
  applyPolygon : ∀ (s t : Transform) (ps : List Point),
    (s.concat t).applyPolygon correct (setPoints correct ps) =
      t.applyPolygon correct (s.applyPolygon correct (setPoints correct ps))
  invert_applyPoint : ∀ (t : Transform) (p : Point),
    t.invert.applyPoint (t.applyPoint p) = p ∧ t.applyPoint (t.invert.applyPoint p) = p
  invert_applyRect : ∀ (t : Transform) (r : Rect), r.Ordered →
    t.invert.applyRect (t.applyRect r) = r ∧ t.applyRect (t.invert.applyRect r) = r
  invert_applyPolygon : ∀ (t : Transform) (ps : List Point),
    t.invert.applyPolygon correct (t.applyPolygon correct (setPoints correct ps)) =
        setPoints correct ps ∧
      t.applyPolygon correct (t.invert.applyPolygon correct (setPoints correct ps)) =
        setPoints correct ps
  image : ∀ (t : Transform) (r : Rect), r.Ordered → ∀ p,
    (t.applyRect r).Mem p ↔ ∃ q, r.Mem q ∧ t.applyPoint q = p

theorem groupLaws {correct : List Point → List Point} (hcorrect : CorrectsRings correct) :
    GroupLaws correct where
  assoc := concat_assoc
  identity_concat t := eq_of_apply fun p => by rw [apply_concat, apply_identity]
  concat_identity t := eq_of_apply fun p => by rw [apply_concat, apply_identity]
  concat_invert := concat_invert
  invert_concat := invert_concat
  applyPoint := apply_concat
  applyRect := applyRect_concat
  applyPolygon s t ps := applyPolygon_concat s t hcorrect (hcorrect.ringOk ps)
  invert_applyPoint t p := ⟨apply_invert_apply t p, apply_apply_invert t p⟩
  invert_applyRect t r h := by
    refine ⟨applyRect_invert t h, ?_⟩
    rw [← applyRect_concat, invert_concat, ← concat_invert t, applyRect_concat, applyRect_invert t h]
  invert_applyPolygon t ps := by
    have hok := hcorrect.ringOk ps
    constructor
    · rw [← applyPolygon_concat t t.invert hcorrect hok, concat_invert,
        applyPolygon_identity hcorrect hok]
    · rw [← applyPolygon_concat t.invert t hcorrect hok, invert_concat,
        applyPolygon_identity hcorrect hok]
  image := mem_applyRect_iff

/-- The laws hold of a function that follows the documentation to the letter. -/
theorem groupLaws_correct : GroupLaws fun ps =>
    if ringArea (closeRing ps) < 0 then (closeRing ps).reverse else closeRing ps :=
  groupLaws ⟨fun _ => rfl⟩

/-- The image of a triangle under a mirrored transform is clockwise again. -/
example : (Transform.mk .MYR90 ⟨5, 7⟩).applyPolygon
    (fun ps => if ringArea (closeRing ps) < 0 then (closeRing ps).reverse else closeRing ps)
    [⟨0, 0⟩, ⟨0, 2⟩, ⟨3, 0⟩, ⟨0, 0⟩] = [⟨5, 7⟩, ⟨5, 4⟩, ⟨3, 7⟩, ⟨5, 7⟩] := by decide

end Transform

end OpenRoad.Db
