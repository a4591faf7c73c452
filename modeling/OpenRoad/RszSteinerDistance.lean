import OpenRoad.RszSteinerTree
import Mathlib.Data.List.GetD

/-!
Distances in the view of a Steiner tree. The search for a node adds, at every node it comes back
through, the distance to the node it looks for, not to the child it found it in.
-/

namespace OpenRoad.Rsz.SteinerTree

open Run ParentTree Relation

variable {tree : SteinerTree} {up : Nat → Nat} {driver a b c : Nat} {sides : Sides}

theorem manhattan_nonneg (tree : SteinerTree) (a b : Nat) : 0 ≤ tree.manhattan a b :=
  Int.add_nonneg (abs_nonneg _) (abs_nonneg _)

theorem manhattan_self (tree : SteinerTree) (a : Nat) : tree.manhattan a a = 0 := by
  unfold manhattan
  rw [Int.sub_self, Int.sub_self, abs_zero, Int.add_zero]

/-- What the search adds up on a path to `b`. -/
def summed (tree : SteinerTree) (b : Nat) (path : List Nat) : Int :=
  (path.map fun v => tree.manhattan v b).sum

theorem summed_nonneg (tree : SteinerTree) (b : Nat) (path : List Nat) : 0 ≤ tree.summed b path := by
  induction path with
  | nil => exact le_rfl
  | cons a path ih => exact Int.add_nonneg (tree.manhattan_nonneg a b) ih

namespace Turned

variable (h : tree.Turned up driver)
  (hkids : ∀ v < tree.branchCount, Kids tree.branchCount up sides v)

include h hkids

/-- A node that is not below is not found. -/
theorem distanceFrom_beside (fuel : Nat) (ha : a < tree.branchCount) (hb : b < tree.branchCount)
    (hfuel : size tree.branchCount up a ≤ fuel) (hnot : ¬Under up a b) :
    tree.distanceFrom sides fuel (some a) (some b) = some (-1) := by
  induction fuel generalizing a with
  | zero =>
      have := @Rooted.size_pos _ up _ ha
      omega
  | succ fuel ih =>
      have hne : a ≠ b := fun heq => hnot (heq ▸ ReflTransGen.refl)
      have hdirect : ¬(sides.left a = some b ∨ sides.right a = some b) := fun hseen =>
        hnot (ReflTransGen.single (((hkids a ha).seen b).mp hseen).2)
      simp only [distanceFrom, if_neg hne, if_neg hdirect]
      split
      case isTrue => rfl
      case isFalse hsome =>
        have hchild : ∀ c, Sides.Seen sides a c → size tree.branchCount up c ≤ fuel ∧
            tree.distanceFrom sides fuel (some c) (some b) = some (-1) := by
          intro c hseen
          obtain ⟨hlt, hchild⟩ := ((hkids a ha).seen c).mp hseen
          have hsize := h.rooted.size_child_lt hchild hlt
          exact ⟨by omega, ih hlt (by omega) fun hunder => hnot (ReflTransGen.head hchild hunder)⟩
        have hpos : 0 < fuel := by
          obtain ⟨c, hseen⟩ : ∃ c, Sides.Seen sides a c := by
            cases hl : sides.left a with
            | some c => exact ⟨c, Or.inl hl⟩
            | none =>
                cases hr : sides.right a with
                | some c => exact ⟨c, Or.inr hr⟩
                | none => exact absurd ⟨hl, hr⟩ hsome
          have hlt := (((hkids a ha).seen c).mp hseen).1
          exact (@Rooted.size_pos _ up _ hlt).trans_le (hchild c hseen).1
        have hside : ∀ o, (∀ c, o = some c → Sides.Seen sides a c) →
            tree.distanceFrom sides fuel o (some b) = some (-1) := by
          intro o ho
          cases o with
          | some c => exact (hchild c (ho c rfl)).2
          | none =>
              obtain ⟨n, rfl⟩ : ∃ n, fuel = n + 1 := ⟨fuel - 1, by omega⟩
              rfl
        rw [hside _ fun c hc => Or.inl hc, Option.bind_eq_bind, Option.bind_some,
          if_neg (by decide), hside _ fun c hc => Or.inr hc]
        rfl

/-- A node below is found along the path to it. -/
theorem distanceFrom_along (fuel : Nat) (path : List Nat) (hb : b < tree.branchCount)
    (hfuel : size tree.branchCount up a ≤ fuel) (hchain : (a :: path).IsChain (Child up))
    (hlast : (a :: path).getLast? = some b) :
    tree.distanceFrom sides fuel (some a) (some b) = some (tree.summed b (a :: path)) := by
  have ha : a < tree.branchCount := h.rooted.under_lt (Rooted.under_of_chain hchain hlast) hb
  obtain ⟨n, rfl⟩ : ∃ n, fuel = n + 1 := by
    have := @Rooted.size_pos _ up _ ha
    exact ⟨fuel - 1, by omega⟩
  induction path generalizing a n with
  | nil =>
      obtain rfl : a = b := by simpa using hlast
      simp [distanceFrom, summed, tree.manhattan_self]
  | cons c path ih =>
      obtain ⟨hchild, hrest⟩ := List.isChain_cons_cons.mp hchain
      rw [List.getLast?_cons_cons] at hlast
      have hunder : Under up c b := Rooted.under_of_chain hrest hlast
      have hc : c < tree.branchCount := h.rooted.under_lt hunder hb
      have hne : a ≠ b := by
        rintro rfl
        exact h.rooted.not_under_of_child ha hchild hunder
      have hsize := h.rooted.size_child_lt hchild hc
      have hpos := @Rooted.size_pos _ up _ hc
      obtain ⟨m, rfl⟩ : ∃ m, n = m + 1 := ⟨n - 1, by omega⟩
      have hfound := ih hrest hlast hc m (by omega)
      have hseen : Sides.Seen sides a c := ((hkids a ha).seen c).mpr ⟨hc, hchild⟩
      have hsummed : tree.summed b (a :: c :: path) =
          tree.summed b (c :: path) + tree.manhattan a b := Int.add_comm _ _
      rw [distanceFrom, if_neg hne, hsummed]
      by_cases hdirect : sides.left a = some b ∨ sides.right a = some b
      · -- the node is the child itself, and the path ends there
        have hchild' := (((hkids a ha).seen b).mp hdirect).2
        obtain rfl : c = b :=
          h.rooted.child_unique ha hchild hchild' hunder ReflTransGen.refl
        have hnil : path = [] := by
          rcases path with _ | ⟨d, path⟩
          · rfl
          · obtain ⟨hd, hrest'⟩ := List.isChain_cons_cons.mp hrest
            rw [List.getLast?_cons_cons] at hlast
            exact absurd (Rooted.under_of_chain hrest' hlast) (h.rooted.not_under_of_child hc hd)
        rw [if_pos hdirect, hnil]
        simp [summed, tree.manhattan_self]
      · rw [if_neg hdirect]
        have hnonneg := tree.summed_nonneg b (c :: path)
        rcases hseen with hleft | hright
        · rw [if_neg (by simp [hleft]), hleft, hfound, Option.bind_eq_bind, Option.bind_some,
            if_pos hnonneg]
        · have hother : tree.distanceFrom sides (m + 1) (sides.left a) (some b) = some (-1) := by
            cases hleft : sides.left a with
            | none => rfl
            | some d =>
                obtain ⟨hd, hchild'⟩ := ((hkids a ha).seen d).mp (Or.inl hleft)
                have hsize' := h.rooted.size_child_lt hchild' hd
                refine h.distanceFrom_beside hkids (m + 1) hd hb (by omega) fun hdb => ?_
                have heq : d = c := h.rooted.child_unique ha hchild' hchild hdb hunder
                exact (hkids a ha).apart d hleft (heq ▸ hright)
          rw [if_neg (by simp [hright]), hother, hright, hfound]
          simp only [Option.bind_eq_bind, Option.bind_some]
          rw [if_neg (by decide), if_pos hnonneg]

end Turned

/-! ### The whole view -/

theorem Built.turned (hbuilt : tree.Built) : ∃ up driver, tree.Turned up driver := by
  obtain ⟨v, hv, hloc⟩ := hbuilt.drvr
  have hv' : v < tree.branch.length := hv.trans_le hbuilt.pinCount_le
  have hat : decide ((tree.branch[v].x, tree.branch[v].y) = tree.drvrLoc) = true := by
    unfold location at hloc
    rw [List.getD_eq_getElem _ _ hv'] at hloc
    exact decide_eq_true hloc
  obtain ⟨driver, hdrvr⟩ : ∃ driver, tree.drvrPt = some driver := by
    refine Option.isSome_iff_exists.mp ?_
    unfold drvrPt
    rw [List.findIdx?_isSome]
    exact List.any_eq_true.mpr ⟨_, List.getElem_mem hv', hat⟩
  obtain ⟨hlt, -, hfirst⟩ := List.findIdx?_eq_some_iff_getElem.mp hdrvr
  have hle : driver ≤ v := by
    by_contra hgt
    exact hfirst v (Nat.lt_of_not_le hgt) hat
  obtain ⟨root, hrooted⟩ := hbuilt.rooted
  obtain ⟨up, hup, hsame⟩ := hrooted.reroot hlt
  exact ⟨up, driver, hbuilt, hup, hsame, hdrvr, hle.trans_lt hv⟩

/-- On every path from the driver, the end is as far from a node as the next node is. -/
def Level (tree : SteinerTree) : Prop :=
  ∀ driver above a c path b, tree.drvrPt = some driver →
    Path tree.Adj driver (above ++ a :: c :: path) b → tree.manhattan a b = tree.manhattan a c

namespace Turned

variable (h : tree.Turned up driver)

include h

/-- The part of a path from the driver behind one of its nodes leads downwards. -/
theorem path_below {above path : List Nat} (hpath : Path tree.Adj driver (above ++ a :: path) b) :
    (a :: path).IsChain (Child up) ∧ (a :: path).getLast? = some b ∧ b < tree.branchCount := by
  have hadj : tree.Adj = Adjacent tree.branchCount up := by
    funext x y
    exact propext (h.same x y).symm
  rw [hadj] at hpath
  refine ⟨(h.rooted.path_child hpath).right_of_append, ?_, ?_⟩
  · have hlast := hpath.last
    rwa [List.getLast?_append, List.getLast?_cons, Option.some_or, ← List.getLast?_cons] at hlast
  · exact Rooted.path_lt hpath h.driver_lt_branchCount b (List.mem_of_getLast? hpath.last)

theorem distance_along (hkids : ∀ v < tree.branchCount, Kids tree.branchCount up sides v)
    {above path : List Nat} (hpath : Path tree.Adj driver (above ++ a :: path) b) :
    tree.distance sides (some a) (some b) = some (tree.summed b (a :: path)) := by
  obtain ⟨hchain, hlast, hb⟩ := h.path_below hpath
  exact h.distanceFrom_along hkids _ path hb (Rooted.size_le up a) hchain hlast

theorem summed_eq (hlevel : tree.Level) (above path : List Nat)
    (hpath : Path tree.Adj driver (above ++ a :: path) b) :
    tree.summed b (a :: path) = tree.wireLength (a :: path) := by
  induction path generalizing above a with
  | nil =>
      obtain rfl : a = b := by simpa using (h.path_below hpath).2.1
      simp [summed, wireLength, tree.manhattan_self]
  | cons c path ih =>
      have hpath' : Path tree.Adj driver ((above ++ [a]) ++ c :: path) b := by
        rwa [List.append_assoc]
      calc tree.summed b (a :: c :: path)
          _ = tree.manhattan a b + tree.summed b (c :: path) := rfl
          _ = tree.manhattan a c + tree.wireLength (c :: path) := by
            rw [hlevel driver above a c path b h.drvrPt hpath, ih (above ++ [a]) hpath']

/-- Every node is where the view says when every pin is a leaf. -/
theorem faithful (hleaf : ∀ v < tree.pinCount, (tree.neighbours v).length ≤ 1)
    (hlevel : tree.Level) : ∃ sides, tree.populateSides = some sides ∧ tree.Faithful driver sides := by
  obtain ⟨sides, hrun, hkids⟩ := h.populateSides_kids hleaf
  have hlinked := h.populateSides_linked hrun
  have hparent : ∀ v w, Sides.Seen sides v w → v < tree.branchCount ∧ w < tree.branchCount ∧
      Child up v w := by
    intro v w hseen
    obtain ⟨hw, hchild⟩ := hlinked.seen v w hseen
    exact ⟨h.rooted.child_lt hchild hw, hw, hchild⟩
  refine ⟨sides, hrun, ?_, ?_, ?_, ?_, ?_, ?_, ?_⟩
  · intro v hv
    have hunder := h.rooted.under_root hv
    induction hunder with
    | refl => exact ReflTransGen.refl
    | tail _ hchild ih =>
        have hlt := h.rooted.child_lt hchild hv
        exact (ih hlt).tail (((hkids _ hlt).seen _).mpr ⟨hv, hchild⟩)
  · intro v w u hvu hwu
    exact (hparent v u hvu).2.2.2.symm.trans (hparent w u hwu).2.2.2
  · intro v w hleft
    exact (hkids v (hparent v w (Or.inl hleft)).1).apart w hleft
  · exact fun v hseen => h.rooted.not_child_root v (hparent v driver hseen).2.2
  · intro v w hseen
    obtain ⟨hv, hw, hchild⟩ := hparent v w hseen
    exact (h.same v w).mp ⟨hv, hw, Or.inl hchild⟩
  · intro above a path b hpath
    rw [h.distance_along hkids hpath, h.summed_eq hlevel above path hpath]
  · intro a b ha hb hnone
    refine h.distanceFrom_beside hkids _ ha hb (Rooted.size_le up a) fun hunder => ?_
    obtain ⟨path, hpath, hmem⟩ := h.rooted.exists_path hb
    have hadj : Adjacent tree.branchCount up = tree.Adj := by
      funext x y
      exact propext (h.same x y)
    rw [hadj] at hpath
    exact hnone path hpath ((hmem a).mpr hunder)

/-- A pin with two neighbours hides one of them. -/
theorem leaf_of_faithful {sides : Sides} (hrun : tree.populateSides = some sides)
    (hfaithful : tree.Faithful driver sides) :
    ∀ v < tree.pinCount, (tree.neighbours v).length ≤ 1 := by
  intro v hv
  have hlinked := h.populateSides_linked hrun
  have hlt : v < tree.branchCount := hv.trans_le h.built.pinCount_le
  -- every child is seen from its parent
  have hseen : ∀ w < tree.branchCount, Child up v w → Sides.Seen sides v w := by
    intro w hw hchild
    rcases ReflTransGen.cases_tail (hfaithful.reached w hw) with heq | ⟨u, -, huw⟩
    · exact absurd hchild (heq ▸ h.rooted.not_child_root v)
    · exact ((hlinked.seen u w huw).2.2.symm.trans hchild.2) ▸ huw
  have hone : ∀ a ∈ tree.neighbours v, ∀ b ∈ tree.neighbours v, a = b := by
    intro a ha b hb
    obtain ⟨halt, ha⟩ := (h.mem_neighbours_iff hlt).mp ha
    obtain ⟨hblt, hb⟩ := (h.mem_neighbours_iff hlt).mp hb
    by_cases hdriver : v = driver
    · subst hdriver
      have hleft : ∀ w < tree.branchCount, Child up v w ∨ Child up w v → sides.left v = some w := by
        intro w hw hnear
        rcases hnear with hchild | hchild
        · rcases hseen w hw hchild with hl | hr
          · exact hl
          · exact absurd (hlinked.driver.symm.trans hr) (by simp)
        · exact absurd hchild (h.rooted.not_child_root w)
      exact Option.some.inj ((hleft a halt ha).symm.trans (hleft b hblt hb))
    · obtain ⟨hnl, hnr⟩ := hlinked.pin v hv hdriver
      have hparent : ∀ w < tree.branchCount, Child up v w ∨ Child up w v → w = up v := by
        intro w hw hnear
        rcases hnear with hchild | hchild
        · rcases hseen w hw hchild with hl | hr
          · exact absurd (hnl.symm.trans hl) (by simp)
          · exact absurd (hnr.symm.trans hr) (by simp)
        · exact hchild.2.symm
      exact (hparent a halt ha).trans (hparent b hblt hb).symm
  have hnodup := tree.nodup_neighbours v
  rcases hlist : tree.neighbours v with _ | ⟨a, _ | ⟨b, rest⟩⟩
  · exact Nat.zero_le 1
  · exact le_rfl
  · rw [hlist] at hone hnodup
    have heq : a = b := hone a List.mem_cons_self b (List.mem_cons_of_mem a List.mem_cons_self)
    exact absurd (heq ▸ List.mem_cons_self) (List.nodup_cons.mp hnodup).1

end Turned

/-- The view of a built tree is faithful exactly when all pins are leaves and the distances that the
search adds up are those of the edges. -/
theorem faithful_iff (tree : SteinerTree) (hbuilt : tree.Built) :
    (∃ driver sides, tree.drvrPt = some driver ∧ tree.populateSides = some sides ∧
      tree.Faithful driver sides) ↔
    (∀ v < tree.pinCount, (tree.neighbours v).length ≤ 1) ∧ tree.Level := by
  obtain ⟨up, driver, h⟩ := hbuilt.turned
  constructor
  · rintro ⟨driver', sides, hdrvr, hrun, hfaithful⟩
    obtain rfl : driver = driver' := Option.some.inj (h.drvrPt.symm.trans hdrvr)
    have hleaf := h.leaf_of_faithful hrun hfaithful
    refine ⟨hleaf, fun driver' above a c path b hdrvr' hpath => ?_⟩
    obtain rfl : driver = driver' := Option.some.inj (h.drvrPt.symm.trans hdrvr')
    obtain ⟨sides', hrun', hkids⟩ := h.populateSides_kids hleaf
    obtain rfl : sides = sides' := Option.some.inj (hrun.symm.trans hrun')
    have hpath' : Path tree.Adj driver ((above ++ [a]) ++ c :: path) b := by
      rwa [List.append_assoc]
    -- both sums are right, so their difference is
    have hfirst : tree.summed b (a :: c :: path) = tree.wireLength (a :: c :: path) :=
      Option.some.inj ((h.distance_along hkids hpath).symm.trans
        (hfaithful.along above a (c :: path) b hpath))
    have hsecond : tree.summed b (c :: path) = tree.wireLength (c :: path) :=
      Option.some.inj ((h.distance_along hkids hpath').symm.trans
        (hfaithful.along (above ++ [a]) c path b hpath'))
    have hsum : tree.manhattan a b + tree.summed b (c :: path) =
        tree.manhattan a c + tree.wireLength (c :: path) := hfirst
    omega
  · rintro ⟨hleaf, hlevel⟩
    obtain ⟨sides, hrun, hfaithful⟩ := h.faithful hleaf hlevel
    exact ⟨driver, sides, h.drvrPt, hrun, hfaithful⟩

/-- Two pins, the first one the driver. -/
def twoPins : SteinerTree where
  branch := [⟨0, 0, 1⟩, ⟨10, 0, 1⟩]
  pinCount := 2
  drvrLoc := (0, 0)

theorem twoPins_built : twoPins.Built where
  two_le := by decide
  pinCount_le := by decide
  drvr := ⟨0, by decide, rfl⟩
  rooted := by
    refine ⟨1, by decide, rfl, by decide, fun v hv => ?_⟩
    match v, hv with
    | 0, _ => exact ⟨1, .load .top ⟨by decide, rfl⟩⟩
    | 1, _ => exact ⟨0, .top⟩
  degree := by decide

theorem faithful_iff_twoPins :
    (∃ driver sides, twoPins.drvrPt = some driver ∧ twoPins.populateSides = some sides ∧
      twoPins.Faithful driver sides) ↔
    (∀ v < twoPins.pinCount, (twoPins.neighbours v).length ≤ 1) ∧ twoPins.Level :=
  faithful_iff twoPins twoPins_built

/-- Three pins in a row, with no Steiner node. -/
def threePins : SteinerTree where
  branch := [⟨0, 0, 0⟩, ⟨10, 0, 0⟩, ⟨20, 0, 1⟩]
  pinCount := 3
  drvrLoc := (0, 0)

theorem threePins_built : threePins.Built where
  two_le := by decide
  pinCount_le := by decide
  drvr := ⟨0, by decide, rfl⟩
  rooted := by
    refine ⟨0, by decide, rfl, by decide, fun v hv => ?_⟩
    match v, hv with
    | 0, _ => exact ⟨0, .top⟩
    | 1, _ => exact ⟨1, .load .top ⟨by decide, rfl⟩⟩
    | 2, _ => exact ⟨2, .load (.load .top ⟨by decide, rfl⟩) ⟨by decide, rfl⟩⟩
  degree := by decide

/-- The last pin is not seen. -/
theorem not_faithful_threePins : threePins.Built ∧
    ¬∃ driver sides, threePins.drvrPt = some driver ∧ threePins.populateSides = some sides ∧
      threePins.Faithful driver sides := by
  refine ⟨threePins_built, ?_⟩
  rintro ⟨driver, sides, hdrvr, hrun, hfaithful⟩
  obtain ⟨up, driver', h⟩ := threePins_built.turned
  obtain rfl : driver' = driver := Option.some.inj (h.drvrPt.symm.trans hdrvr)
  have hleaf := h.leaf_of_faithful hrun hfaithful 1 (by decide)
  exact absurd hleaf (by decide)

end OpenRoad.Rsz.SteinerTree
