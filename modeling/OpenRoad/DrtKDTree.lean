import OpenRoad.DbGeometry
import OpenRoad.IntervalMerge
import Mathlib.Analysis.Real.Sqrt
import Mathlib.Data.List.Enum

/-!
The tree in which the router looks for the vias near a via. Each level halves the points along
one axis, and the axes alternate; points with the coordinate of the median may be in either half.
-/

namespace OpenRoad.Drt

open Db (Point)
open scoped List

inductive Orientation2D where
  | horizontal
  | vertical
  deriving DecidableEq

namespace Orientation2D

def turn90 : Orientation2D → Orientation2D
  | horizontal => vertical
  | vertical => horizontal

def coord : Orientation2D → Point → Int
  | horizontal, p => p.x
  | vertical, p => p.y

end Orientation2D

/-- `std::unique_ptr<KDTreeNode>` -/
inductive KDTreeNode where
  | null
  | node (id : Nat) (point : Point) (left right : KDTreeNode)

/-- The comparison that `buildTree` sorts by. -/
def pointLess (orient : Orientation2D) (a b : Nat × Point) : Bool :=
  orient.coord a.2 < orient.coord b.2

/-- A difference squared as `frSquaredDistance`, an unsigned number of 64 bits. -/
def squared (d : Int) : Nat := (d * d % 2 ^ 64).toNat

def distanceSquare (target p : Point) : Nat :=
  (squared (target.x - p.x) + squared (target.y - p.y)) % 2 ^ 64

namespace KDTreeNode

variable (S : ∀ orient, StdSort (pointLess orient))

def buildTree (points : List (Nat × Point)) (orient : Orientation2D) : KDTreeNode :=
  match hdrop : ((S orient).sort points).drop (((S orient).sort points).length / 2) with
  | [] => null
  | median :: rightPoints =>
      node median.1 median.2
        (buildTree (((S orient).sort points).take (((S orient).sort points).length / 2))
          orient.turn90)
        (buildTree rightPoints orient.turn90)
termination_by points.length
decreasing_by
  all_goals
    have hlen := congrArg List.length hdrop
    rw [List.length_drop, List.length_cons, ((S orient).perm points).length_eq] at hlen
  · rw [List.length_take, ((S orient).perm points).length_eq]
    omega
  · omega

/-- The search below a node, with the ids found before. -/
def radiusSearchHelper (target : Point) (radiusSquare : Nat) :
    KDTreeNode → Orientation2D → List Nat → List Nat
  | null, _, result => result
  | node id point left right, orient, result =>
      let result := if distanceSquare target point ≤ radiusSquare then result ++ [id] else result
      let diff := orient.coord target - orient.coord point
      if diff < 0 then
        let result := radiusSearchHelper target radiusSquare left orient.turn90 result
        if squared diff ≤ radiusSquare then
          radiusSearchHelper target radiusSquare right orient.turn90 result
        else result
      else
        let result := radiusSearchHelper target radiusSquare right orient.turn90 result
        if squared diff ≤ radiusSquare then
          radiusSearchHelper target radiusSquare left orient.turn90 result
        else result

/-- The points of a tree with their ids. -/
def entries : KDTreeNode → List (Nat × Point)
  | null => []
  | node id point left right => (id, point) :: (left.entries ++ right.entries)

/-- The points on the left are not beyond the node's and those on the right not before it; points
with the node's coordinate may be on both sides. -/
def Splits : KDTreeNode → Orientation2D → Prop
  | null, _ => True
  | node _ point left right, orient =>
      (∀ e ∈ left.entries, orient.coord e.2 ≤ orient.coord point) ∧
      (∀ e ∈ right.entries, orient.coord point ≤ orient.coord e.2) ∧
      left.Splits orient.turn90 ∧ right.Splits orient.turn90

end KDTreeNode

/-- The tree over the points, which are numbered in their order. -/
def KDTree.init (S : ∀ orient, StdSort (pointLess orient)) (points : List Point) : KDTreeNode :=
  KDTreeNode.buildTree S (points.zipIdx.map Prod.swap) .horizontal

def KDTree.radiusSearch (root_ : KDTreeNode) (target : Point) (radius : Int) : List Nat :=
  root_.radiusSearchHelper target (squared radius) .horizontal []

section Build

variable (S : ∀ orient, StdSort (pointLess orient))

open KDTreeNode

/-- The median's node stands over the trees of the two halves of the sorted points. -/
theorem buildTree_eq {points : List (Nat × Point)} (hne : points ≠ []) (orient : Orientation2D) :
    ∃ l median r, (S orient).sort points = l ++ median :: r ∧
      buildTree S points orient =
        node median.1 median.2 (buildTree S l orient.turn90) (buildTree S r orient.turn90) := by
  rw [buildTree]
  split
  · rename_i hdrop
    have hlen := congrArg List.length hdrop
    rw [List.length_drop, List.length_nil, ((S orient).perm points).length_eq] at hlen
    exact absurd (List.length_eq_zero_iff.mp (by omega)) hne
  · rename_i median r hdrop
    refine ⟨_, median, r, ?_, rfl⟩
    rw [← hdrop, List.take_append_drop]

theorem buildTree_nil (orient : Orientation2D) : buildTree S [] orient = null := by
  have hsort : (S orient).sort [] = [] := ((S orient).perm []).eq_nil
  rw [buildTree]
  split
  · rfl
  · rename_i hdrop
    rw [hsort] at hdrop
    cases hdrop

/-- The tree holds the points, each as often as they were given. -/
theorem buildTree_entries (points : List (Nat × Point)) (orient : Orientation2D) :
    (buildTree S points orient).entries.Perm points := by
  induction hlen : points.length using Nat.strong_induction_on generalizing points orient with
  | _ n ih =>
      by_cases hne : points = []
      · rw [hne, buildTree_nil]
        exact List.Perm.refl _
      obtain ⟨l, median, r, hsort, htree⟩ := buildTree_eq S hne orient
      have hperm : (l ++ median :: r).Perm points := hsort ▸ (S orient).perm points
      have hsum := hperm.length_eq
      rw [List.length_append, List.length_cons] at hsum
      have hl := ih l.length (by omega) l orient.turn90 rfl
      have hr := ih r.length (by omega) r orient.turn90 rfl
      rw [htree, entries]
      calc
        _ = median :: ((buildTree S l orient.turn90).entries ++
              (buildTree S r orient.turn90).entries) := rfl
        _ ~ median :: (l ++ r) := (hl.append hr).cons median
        _ ~ l ++ median :: r := List.perm_middle.symm
        _ ~ points := hperm

theorem buildTree_splits (points : List (Nat × Point)) (orient : Orientation2D) :
    (buildTree S points orient).Splits orient := by
  induction hlen : points.length using Nat.strong_induction_on generalizing points orient with
  | _ n ih =>
      by_cases hne : points = []
      · rw [hne, buildTree_nil]
        trivial
      obtain ⟨l, median, r, hsort, htree⟩ := buildTree_eq S hne orient
      have hsum := (hsort ▸ (S orient).perm points).length_eq
      rw [List.length_append, List.length_cons] at hsum
      have hsorted := (S orient).sorted points
      rw [hsort, List.pairwise_append, List.pairwise_cons] at hsorted
      obtain ⟨-, ⟨hright, -⟩, hcross⟩ := hsorted
      rw [htree]
      refine ⟨?_, ?_, ih l.length (by omega) l _ rfl, ih r.length (by omega) r _ rfl⟩
      · intro e he
        have hmem := (buildTree_entries S l orient.turn90).mem_iff.mp he
        have hless := hcross e hmem median (List.mem_cons_self ..)
        exact Int.not_lt.mp (of_decide_eq_false hless)
      · intro e he
        have hmem := (buildTree_entries S r orient.turn90).mem_iff.mp he
        exact Int.not_lt.mp (of_decide_eq_false (hright e hmem))

end Build

/-- The squared distance of two points as `frSquaredDistance` has it. -/
def Fits (target p : Point) : Prop :=
  (target.x - p.x) * (target.x - p.x) + (target.y - p.y) * (target.y - p.y) < 2 ^ 64

theorem squared_eq {d : Int} (h : d * d < 2 ^ 64) : (squared d : Int) = d * d := by
  have hnonneg := mul_self_nonneg d
  rw [squared, Int.emod_eq_of_lt hnonneg h, Int.toNat_of_nonneg hnonneg]

theorem distanceSquare_eq {target p : Point} (h : Fits target p) :
    (distanceSquare target p : Int) =
      (target.x - p.x) * (target.x - p.x) + (target.y - p.y) * (target.y - p.y) := by
  have hx := mul_self_nonneg (target.x - p.x)
  have hy := mul_self_nonneg (target.y - p.y)
  unfold Fits at h
  rw [distanceSquare, Int.natCast_mod, Nat.cast_add, squared_eq (by omega), squared_eq (by omega)]
  exact Int.emod_eq_of_lt (by omega) (by omega)

/-- A point is at least as far from the target as along one axis. -/
theorem squared_le_distanceSquare {target p : Point} (h : Fits target p)
    (orient : Orientation2D) {d : Int} (hd : d * d ≤
      (orient.coord target - orient.coord p) * (orient.coord target - orient.coord p)) :
    squared d ≤ distanceSquare target p := by
  have hdist := distanceSquare_eq h
  have hx := mul_self_nonneg (target.x - p.x)
  have hy := mul_self_nonneg (target.y - p.y)
  unfold Fits at h
  have hle : d * d ≤ (distanceSquare target p : Int) := by
    cases orient
    · exact hd.trans (by rw [hdist]; exact le_add_of_nonneg_right hy)
    · exact hd.trans (by rw [hdist]; exact le_add_of_nonneg_left hx)
  have heq := squared_eq (d := d) (by omega)
  omega

namespace KDTreeNode

/-- The ids of the points of a tree that are not beyond the radius. -/
def within (target : Point) (radiusSquare : Nat) (t : KDTreeNode) : List Nat :=
  (t.entries.filter fun e => distanceSquare target e.2 ≤ radiusSquare).map Prod.fst

theorem within_node (target : Point) (radiusSquare id : Nat) (point : Point)
    (left right : KDTreeNode) :
    (node id point left right).within target radiusSquare =
      (if distanceSquare target point ≤ radiusSquare then [id] else []) ++
        (left.within target radiusSquare ++ right.within target radiusSquare) := by
  unfold within
  rw [entries, List.filter_cons]
  split_ifs with h <;> simp_all

/-- Nothing is within the radius on a side that is cut off by the node's coordinate. -/
theorem within_eq_nil {target : Point} {radiusSquare : Nat} {t : KDTreeNode}
    (hfits : ∀ e ∈ t.entries, Fits target e.2) (orient : Orientation2D) {d : Int}
    (hfar : radiusSquare < squared d)
    (hd : ∀ e ∈ t.entries, d * d ≤
      (orient.coord target - orient.coord e.2) * (orient.coord target - orient.coord e.2)) :
    t.within target radiusSquare = [] := by
  rw [within, List.map_eq_nil_iff, List.filter_eq_nil_iff]
  intro e he
  have hle := squared_le_distanceSquare (hfits e he) orient (hd e he)
  simp only [decide_eq_true_eq, not_le]
  omega

/-- What the search below a node adds to the result. -/
theorem radiusSearchHelper_perm {target : Point} (radiusSquare : Nat) {t : KDTreeNode}
    (hfits : ∀ e ∈ t.entries, Fits target e.2) {orient : Orientation2D}
    (hsplit : t.Splits orient) (result : List Nat) :
    (radiusSearchHelper target radiusSquare t orient result).Perm
      (result ++ t.within target radiusSquare) := by
  induction t generalizing orient result with
  | null => simp [radiusSearchHelper, within, entries]
  | node id point left right ihl ihr =>
      obtain ⟨hleft, hright, hsl, hsr⟩ := hsplit
      have hfl : ∀ e ∈ left.entries, Fits target e.2 := fun e he =>
        hfits e (List.mem_cons_of_mem _ (List.mem_append_left _ he))
      have hfr : ∀ e ∈ right.entries, Fits target e.2 := fun e he =>
        hfits e (List.mem_cons_of_mem _ (List.mem_append_right _ he))
      rw [within_node]
      have hpush : (if distanceSquare target point ≤ radiusSquare then result ++ [id] else result) =
          result ++ if distanceSquare target point ≤ radiusSquare then [id] else [] := by
        split_ifs <;> simp
      rw [radiusSearchHelper]
      dsimp only
      rw [hpush, ← List.append_assoc]
      generalize (result ++ if distanceSquare target point ≤ radiusSquare then [id] else []) = found
      generalize hdiff : orient.coord target - orient.coord point = diff
      have hl := ihl hfl hsl
      have hr := ihr hfr hsr
      split_ifs with hneg hnear hnear
      · calc
          _ ~ radiusSearchHelper target radiusSquare left orient.turn90 found ++
                right.within target radiusSquare := hr _
          _ ~ (found ++ left.within target radiusSquare) ++ right.within target radiusSquare :=
                (hl found).append_right _
          _ ~ _ := by rw [List.append_assoc]
      · have hnil := within_eq_nil hfr orient (not_le.mp hnear) fun e he => by
          have := hright e he
          nlinarith
        rw [hnil, List.append_nil]
        exact hl found
      · calc
          _ ~ radiusSearchHelper target radiusSquare right orient.turn90 found ++
                left.within target radiusSquare := hl _
          _ ~ (found ++ right.within target radiusSquare) ++ left.within target radiusSquare :=
                (hr found).append_right _
          _ ~ found ++ (left.within target radiusSquare ++ right.within target radiusSquare) := by
                rw [List.append_assoc]
                exact List.perm_append_comm.append_left _
      · have hnil := within_eq_nil hfl orient (not_le.mp hnear) fun e he => by
          have := hleft e he
          nlinarith
        rw [hnil, List.nil_append]
        exact hr found

end KDTreeNode

/-- The Euclidean distance of two points. -/
noncomputable def euclideanDist (p q : Point) : ℝ :=
  Real.sqrt (((p.x - q.x) ^ 2 + (p.y - q.y) ^ 2 : Int) : ℝ)

theorem distanceSquare_le_iff {target p : Point} (h : Fits target p) {radius : Int}
    (hradius : 0 ≤ radius) (hsquare : radius * radius < 2 ^ 64) :
    distanceSquare target p ≤ squared radius ↔ euclideanDist p target ≤ radius := by
  have hd := distanceSquare_eq h
  have hr := squared_eq hsquare
  rw [euclideanDist, Real.sqrt_le_left (by exact_mod_cast hradius)]
  have hcast : (radius : ℝ) ^ 2 = ((radius * radius : Int) : ℝ) := by push_cast; ring
  rw [hcast, Int.cast_le, ← hr, ← Int.ofNat_le, hd]
  have hsym : (target.x - p.x) * (target.x - p.x) + (target.y - p.y) * (target.y - p.y) =
      (p.x - target.x) ^ 2 + (p.y - target.y) ^ 2 := by ring
  rw [hsym]

variable (S : ∀ orient, StdSort (pointLess orient))

/-- The search finds the ids of the points within the radius as a scan of all points would. -/
theorem radiusSearch_perm {points : List Point} {target : Point} (radius : Int)
    (hfits : ∀ p ∈ points, Fits target p) :
    (KDTree.radiusSearch (KDTree.init S points) target radius).Perm
      ((points.zipIdx.filter fun e => distanceSquare target e.1 ≤ squared radius).map Prod.snd) := by
  have hentries : (KDTree.init S points).entries.Perm (points.zipIdx.map Prod.swap) :=
    buildTree_entries S _ .horizontal
  have hfitted : ∀ e ∈ (KDTree.init S points).entries, Fits target e.2 := by
    intro e he
    obtain ⟨a, ha, rfl⟩ := List.mem_map.mp (hentries.mem_iff.mp he)
    exact hfits a.1 (List.fst_mem_of_mem_zipIdx ha)
  have hsearch := KDTreeNode.radiusSearchHelper_perm (squared radius) hfitted
    (buildTree_splits S _ .horizontal) []
  rw [List.nil_append] at hsearch
  apply hsearch.trans
  rw [KDTreeNode.within]
  generalize squared radius = radiusSquare
  apply ((hentries.filter _).map _).trans
  rw [List.filter_map, List.map_map]
  exact List.Perm.refl _

/-- The search returns each point within the radius of the target once, and nothing else. -/
theorem radiusSearch_spec {points : List Point} {target : Point} {radius : Int}
    (hradius : 0 ≤ radius) (hsquare : radius * radius < 2 ^ 64)
    (hfits : ∀ p ∈ points, Fits target p) :
    (KDTree.radiusSearch (KDTree.init S points) target radius).Nodup ∧
      ∀ i, i ∈ KDTree.radiusSearch (KDTree.init S points) target radius ↔
        ∃ p, points[i]? = some p ∧ euclideanDist p target ≤ radius := by
  have hperm := radiusSearch_perm S radius hfits
  refine ⟨hperm.nodup_iff.mpr ?_, fun i => ?_⟩
  · have hnodup : (points.zipIdx.map Prod.snd).Nodup := by
      rw [List.zipIdx_map_snd]
      exact List.nodup_range'
    exact hnodup.sublist (List.filter_sublist.map _)
  · rw [hperm.mem_iff, List.mem_map]
    constructor
    · rintro ⟨⟨p, i⟩, hmem, rfl⟩
      obtain ⟨hmem, hle⟩ := List.mem_filter.mp hmem
      have hp := List.mem_zipIdx_iff_getElem?.mp hmem
      have hfit := hfits p (List.mem_of_getElem? hp)
      exact ⟨p, hp, (distanceSquare_le_iff hfit hradius hsquare).mp (of_decide_eq_true hle)⟩
    · rintro ⟨p, hp, hle⟩
      have hfit := hfits p (List.mem_of_getElem? hp)
      refine ⟨(p, i), List.mem_filter.mpr ⟨List.mem_zipIdx_iff_getElem?.mpr hp, ?_⟩, rfl⟩
      exact decide_eq_true ((distanceSquare_le_iff hfit hradius hsquare).mpr hle)

/-- Sorting by insertion, for either axis. -/
def insertionSort (orient : Orientation2D) : StdSort (pointLess orient) where
  sort := List.insertionSort fun a b => pointLess orient b a = false
  perm := List.perm_insertionSort _
  sorted := fun l => by
    have : Std.Total fun a b : Nat × Point => pointLess orient b a = false :=
      ⟨fun a b => by simp only [pointLess, decide_eq_false_iff_not]; omega⟩
    have : IsTrans (Nat × Point) fun a b => pointLess orient b a = false :=
      ⟨fun a b c => by simp only [pointLess, decide_eq_false_iff_not]; omega⟩
    exact List.pairwise_insertionSort _ l

/-- Three points, two of them equal, around a target. -/
theorem radiusSearch_spec_twice :
    (KDTree.radiusSearch (KDTree.init insertionSort [⟨0, 0⟩, ⟨3, 4⟩, ⟨0, 0⟩]) ⟨0, 0⟩ 5).Nodup ∧
      ∀ i, i ∈ KDTree.radiusSearch (KDTree.init insertionSort [⟨0, 0⟩, ⟨3, 4⟩, ⟨0, 0⟩]) ⟨0, 0⟩ 5 ↔
        ∃ p, ([⟨0, 0⟩, ⟨3, 4⟩, ⟨0, 0⟩] : List Point)[i]? = some p ∧
          euclideanDist p ⟨0, 0⟩ ≤ (5 : Int) :=
  radiusSearch_spec insertionSort (by decide) (by decide) (by simp [Fits])

end OpenRoad.Drt
