import OpenRoad.GrtPatternCover
import OpenRoad.Walk

/-!
Routes as paths of the grid: their points are neighbours, and a path is written leg by leg, to the
right, to the left, up and down.
-/

namespace OpenRoad.Grt

abbrev GridPoint := Int × Int

/-- The points are neighbours in the grid. -/
def Beside (p q : GridPoint) : Prop :=
  p.1 = q.1 ∧ (q.2 = p.2 + 1 ∨ p.2 = q.2 + 1) ∨ p.2 = q.2 ∧ (q.1 = p.1 + 1 ∨ p.1 = q.1 + 1)

instance (p q : GridPoint) : Decidable (Beside p q) := inferInstanceAs (Decidable (_ ∨ _))

/-- A step to a neighbour, with the grid edge it covers. -/
def GridStep (p q : GridPoint) (gridEdge : GridEdge) : Prop :=
  Beside p q ∧ gridEdge = edgeBetween p.1 p.2 q.1 q.2

/-! ### Legs -/

/-- The numbers from `a` down to `b`, without `b`. -/
def spanDown (a b : Int) : List Int := (List.range (a - b).toNat).map fun k : Nat => a - k

theorem span_cons {a b : Int} (hlt : a < b) : span a b = a :: span (a + 1) b := by
  unfold span
  obtain ⟨n, hn⟩ : ∃ n : Nat, b - a = n + 1 := ⟨(b - a - 1).toNat, by omega⟩
  have hrest : (b - (a + 1)).toNat = n := by omega
  have hall : (b - a).toNat = n + 1 := by omega
  rw [hall, hrest, List.range_succ_eq_map, List.map_cons, List.map_map]
  congr 1
  · omega
  · apply List.map_congr_left
    intro k _
    simp only [Function.comp_apply]
    omega

theorem spanDown_cons {a b : Int} (hlt : b < a) : spanDown a b = a :: spanDown (a - 1) b := by
  unfold spanDown
  obtain ⟨n, hn⟩ : ∃ n : Nat, a - b = n + 1 := ⟨(a - b - 1).toNat, by omega⟩
  have hrest : (a - 1 - b).toNat = n := by omega
  have hall : (a - b).toNat = n + 1 := by omega
  rw [hall, hrest, List.range_succ_eq_map, List.map_cons, List.map_map]
  congr 1
  · omega
  · apply List.map_congr_left
    intro k _
    simp only [Function.comp_apply]
    omega

theorem spanDown_of_le {a b : Int} (hle : a ≤ b) : spanDown a b = [] := by
  unfold spanDown
  rw [Int.toNat_of_nonpos (by omega)]
  rfl

@[simp] theorem length_span (a b : Int) : (span a b).length = (b - a).toNat := by
  simp [span]

theorem span_concat {a b : Int} (hle : a ≤ b) : span a (b + 1) = span a b ++ [b] := by
  unfold span
  have hall : (b + 1 - a).toNat = (b - a).toNat + 1 := by omega
  rw [hall, List.range_succ, List.map_append, List.map_singleton]
  congr 2
  omega

theorem spanDown_concat {a b : Int} (hle : b ≤ a) : spanDown a (b - 1) = spanDown a b ++ [b] := by
  unfold spanDown
  have hall : (a - (b - 1)).toNat = (a - b).toNat + 1 := by omega
  rw [hall, List.range_succ, List.map_append, List.map_singleton]
  congr 2
  omega

/-- A leg downwards passes the same steps as one upwards. -/
theorem spanDown_perm (a b : Int) : ((spanDown a b).map fun i => i - 1).Perm (span b a) := by
  obtain ⟨n, hn⟩ : ∃ n, n = (a - b).toNat := ⟨_, rfl⟩
  induction n generalizing a with
  | zero =>
      rw [spanDown_of_le (by omega), span_of_le (by omega)]
      exact List.Perm.nil
  | succ n ih =>
      have hlast : span b a = span b (a - 1) ++ [a - 1] := by
        rw [← span_concat (by omega), Int.sub_add_cancel]
      rw [spanDown_cons (by omega), List.map_cons, hlast]
      exact ((ih (a - 1) (by omega)).cons _).trans (List.perm_append_singleton _ _).symm

/-- The points of a horizontal leg, without the last. -/
def hLeg (y a b : Int) : List GridPoint :=
  if a < b then (span a b).map fun i => (i, y) else (spanDown a b).map fun i => (i, y)

/-- What the leg covers. -/
def hLegEdges (y a b : Int) : List GridEdge :=
  if a < b then (span a b).map fun i => hEdge y i else (spanDown a b).map fun i => hEdge y (i - 1)

/-- The points of a vertical leg, without the last. -/
def vLeg (x a b : Int) : List GridPoint :=
  if a < b then (span a b).map fun i => (x, i) else (spanDown a b).map fun i => (x, i)

def vLegEdges (x a b : Int) : List GridEdge :=
  if a < b then (span a b).map fun i => vEdge i x else (spanDown a b).map fun i => vEdge (i - 1) x

theorem walk_right (y a b : Int) (hle : a ≤ b) :
    Walk GridStep (a, y) (b, y) ((span a b).map fun i => (i, y))
      ((span a b).map fun i => hEdge y i) := by
  obtain ⟨n, hn⟩ : ∃ n, n = (b - a).toNat := ⟨_, rfl⟩
  induction n generalizing a with
  | zero =>
      have heq : a = b := by omega
      rw [heq, span_of_le le_rfl]
      exact Walk.nil _
  | succ n ih =>
      rw [span_cons (by omega)]
      refine Walk.cons (c := (a + 1, y)) ⟨Or.inr ⟨rfl, Or.inl rfl⟩, ?_⟩ (ih (a + 1) (by omega) (by omega))
      rw [edgeBetween, if_neg (by simp), min_eq_left (by simp)]

theorem walk_left (y a b : Int) (hle : b ≤ a) :
    Walk GridStep (a, y) (b, y) ((spanDown a b).map fun i => (i, y))
      ((spanDown a b).map fun i => hEdge y (i - 1)) := by
  obtain ⟨n, hn⟩ : ∃ n, n = (a - b).toNat := ⟨_, rfl⟩
  induction n generalizing a with
  | zero =>
      have heq : a = b := by omega
      rw [heq, spanDown_of_le le_rfl]
      exact Walk.nil _
  | succ n ih =>
      rw [spanDown_cons (by omega)]
      refine Walk.cons (c := (a - 1, y)) ⟨Or.inr ⟨rfl, Or.inr (by simp)⟩, ?_⟩ (ih (a - 1) (by omega) (by omega))
      have hne : ¬a = a - 1 := by omega
      rw [edgeBetween, if_neg hne, min_eq_right (by simp)]

theorem walk_up (x a b : Int) (hle : a ≤ b) :
    Walk GridStep (x, a) (x, b) ((span a b).map fun i => (x, i))
      ((span a b).map fun i => vEdge i x) := by
  obtain ⟨n, hn⟩ : ∃ n, n = (b - a).toNat := ⟨_, rfl⟩
  induction n generalizing a with
  | zero =>
      have heq : a = b := by omega
      rw [heq, span_of_le le_rfl]
      exact Walk.nil _
  | succ n ih =>
      rw [span_cons (by omega)]
      refine Walk.cons (c := (x, a + 1)) ⟨Or.inl ⟨rfl, Or.inl rfl⟩, ?_⟩ (ih (a + 1) (by omega) (by omega))
      rw [edgeBetween, if_pos rfl, min_eq_left (by simp)]

theorem walk_down (x a b : Int) (hle : b ≤ a) :
    Walk GridStep (x, a) (x, b) ((spanDown a b).map fun i => (x, i))
      ((spanDown a b).map fun i => vEdge (i - 1) x) := by
  obtain ⟨n, hn⟩ : ∃ n, n = (a - b).toNat := ⟨_, rfl⟩
  induction n generalizing a with
  | zero =>
      have heq : a = b := by omega
      rw [heq, spanDown_of_le le_rfl]
      exact Walk.nil _
  | succ n ih =>
      rw [spanDown_cons (by omega)]
      refine Walk.cons (c := (x, a - 1)) ⟨Or.inl ⟨rfl, Or.inr (by simp)⟩, ?_⟩ (ih (a - 1) (by omega) (by omega))
      rw [edgeBetween, if_pos rfl, min_eq_right (by simp)]

theorem walk_hLeg (y a b : Int) :
    Walk GridStep (a, y) (b, y) (hLeg y a b) (hLegEdges y a b) := by
  unfold hLeg hLegEdges
  split_ifs with hlt
  · exact walk_right y a b hlt.le
  · exact walk_left y a b (not_lt.mp hlt)

theorem walk_vLeg (x a b : Int) :
    Walk GridStep (x, a) (x, b) (vLeg x a b) (vLegEdges x a b) := by
  unfold vLeg vLegEdges
  split_ifs with hlt
  · exact walk_up x a b hlt.le
  · exact walk_down x a b (not_lt.mp hlt)

theorem hLegEdges_perm (y a b : Int) :
    (hLegEdges y a b).Perm (hSpan y (min a b) (max a b)) := by
  unfold hLegEdges hSpan
  split_ifs with hlt
  · rw [min_eq_left hlt.le, max_eq_right hlt.le]
  · rw [min_eq_right (not_lt.mp hlt), max_eq_left (not_lt.mp hlt)]
    have hmap := (spanDown_perm a b).map fun i => hEdge y i
    rwa [List.map_map] at hmap

theorem vLegEdges_perm (x a b : Int) :
    (vLegEdges x a b).Perm (vSpan x (min a b) (max a b)) := by
  unfold vLegEdges vSpan
  split_ifs with hlt
  · rw [min_eq_left hlt.le, max_eq_right hlt.le]
  · rw [min_eq_right (not_lt.mp hlt), max_eq_left (not_lt.mp hlt)]
    have hmap := (spanDown_perm a b).map fun i => vEdge i x
    rwa [List.map_map] at hmap

/-! ### Routes -/

namespace Route

variable (route : Route)

def point (i : Nat) : GridPoint := (route.gridsX.getD i 0, route.gridsY.getD i 0)

/-- The first `routelen + 1` points lead from one place to another, step by step. -/
structure IsPath (p q : GridPoint) : Prop where
  lengthX : route.routelen < route.gridsX.length
  lengthY : route.routelen < route.gridsY.length
  first : route.point 0 = p
  last : route.point route.routelen = q
  beside : ∀ i < route.routelen, Beside (route.point i) (route.point (i + 1))

variable {route} {p q : GridPoint}

theorem edgeAt_eq (i : Nat) : route.edgeAt i =
    edgeBetween (route.point i).1 (route.point i).2 (route.point (i + 1)).1
      (route.point (i + 1)).2 := rfl

theorem not_stays_of_beside {i : Nat} (h : Beside (route.point i) (route.point (i + 1))) :
    ¬route.Stays i := by
  rintro ⟨hx, hy⟩
  change (route.point i).1 = (route.point (i + 1)).1 at hx
  change (route.point i).2 = (route.point (i + 1)).2 at hy
  unfold Beside at h
  omega

theorem covered_of_beside (h : ∀ i < route.routelen, Beside (route.point i) (route.point (i + 1))) :
    route.covered = (List.range route.routelen).map route.edgeAt := by
  unfold covered
  rw [List.filter_eq_self.mpr]
  intro i hi
  have hstays := not_stays_of_beside (h i (List.mem_range.mp hi))
  simpa using hstays

theorem IsPath.walk (h : route.IsPath p q) :
    Walk GridStep p q ((List.range route.routelen).map route.point) route.covered := by
  rw [covered_of_beside h.beside]
  have hwalk : ∀ n ≤ route.routelen, Walk GridStep (route.point 0) (route.point n)
      ((List.range n).map route.point) ((List.range n).map route.edgeAt) := by
    intro n hn
    induction n with
    | zero => exact Walk.nil _
    | succ n ih =>
        rw [List.range_succ, List.map_append, List.map_append]
        exact (ih (Nat.le_of_succ_le hn)).append (Walk.single ⟨h.beside n hn, rfl⟩)
  have hall := hwalk route.routelen le_rfl
  rwa [h.first, h.last] at hall

/-- The points of the walk are the first points of the route. -/
theorem point_of_prefix {points : List GridPoint} {restX restY : List Int}
    (hx : route.gridsX = points.map Prod.fst ++ restX)
    (hy : route.gridsY = points.map Prod.snd ++ restY) {i : Nat} (hi : i < points.length) :
    points[i]? = some (route.point i) := by
  have hget : points[i]? = some points[i] := List.getElem?_eq_getElem hi
  have hfst : route.gridsX.getD i 0 = points[i].1 := by
    rw [hx, List.getD_append _ _ _ _ (by simpa using hi), List.getD_eq_getElem?_getD,
      List.getElem?_map, hget]
    rfl
  have hsnd : route.gridsY.getD i 0 = points[i].2 := by
    rw [hy, List.getD_append _ _ _ _ (by simpa using hi), List.getD_eq_getElem?_getD,
      List.getElem?_map, hget]
    rfl
  rw [hget, point, hfst, hsnd]

/-- A route that begins with the points of a walk leads along it. -/
theorem isPath_of_walk {points : List GridPoint} {gridEdges : List GridEdge}
    (hwalk : Walk GridStep p q points gridEdges) {restX restY : List Int}
    (hx : route.gridsX = (points ++ [q]).map Prod.fst ++ restX)
    (hy : route.gridsY = (points ++ [q]).map Prod.snd ++ restY)
    (hlen : route.routelen = points.length) :
    route.IsPath p q ∧ route.covered = gridEdges := by
  have hpoint : ∀ i ≤ points.length, (points ++ [q])[i]? = some (route.point i) := fun i hi =>
    point_of_prefix hx hy (by simpa using Nat.lt_succ_of_le hi)
  have hstep : ∀ i < points.length, Beside (route.point i) (route.point (i + 1)) ∧
      gridEdges[i]? = some (route.edgeAt i) := by
    intro i hi
    obtain ⟨a, b, e, ha, hb, he, hbeside, hedge⟩ :=
      hwalk.step_getElem (i := i) (by rwa [← hwalk.length_eq])
    have hai : a = route.point i := Option.some.inj (ha.symm.trans (hpoint i hi.le))
    have hbi : b = route.point (i + 1) := Option.some.inj (hb.symm.trans (hpoint (i + 1) hi))
    rw [edgeAt_eq, ← hai, ← hbi, he, hedge]
    exact ⟨hbeside, rfl⟩
  have hbeside : ∀ i < route.routelen, Beside (route.point i) (route.point (i + 1)) :=
    fun i hi => (hstep i (hlen ▸ hi)).1
  refine ⟨⟨?_, ?_, ?_, ?_, hbeside⟩, ?_⟩
  · rw [hx, hlen]
    simp
  · rw [hy, hlen]
    simp
  · exact Option.some.inj ((hpoint 0 (Nat.zero_le _)).symm.trans hwalk.getElem?_zero)
  · rw [hlen]
    exact Option.some.inj ((hpoint _ le_rfl).symm.trans (Walk.getElem?_last points q))
  · rw [covered_of_beside hbeside, hlen]
    apply List.ext_getElem?
    intro i
    rcases lt_or_ge i points.length with hi | hi
    · rw [List.getElem?_map, List.getElem?_range hi, (hstep i hi).2]
      rfl
    · rw [List.getElem?_eq_none (by simpa using hi),
        List.getElem?_eq_none (by rw [← hwalk.length_eq]; exact hi)]

end Route

end OpenRoad.Grt
