import OpenRoad.ParentTree
import OpenRoad.Run
import Mathlib.Algebra.Order.Group.Unbundled.Int
import Mathlib.Algebra.BigOperators.Group.List.Basic
import Mathlib.Tactic.Linarith

/-!
The resizer's view of a Steiner tree. The branches come from a builder, the pins first; from the
driver on, every node gets a left and a right child. The children are filled from the neighbours of a
node, and only below nodes that are no pins.
-/

namespace OpenRoad.Rsz

open Run ParentTree Relation

/-- Where a node is, and the index of a neighbour. -/
structure Branch where
  x : Int
  y : Int
  n : Nat
  deriving DecidableEq

instance : Inhabited Branch := ⟨⟨0, 0, 0⟩⟩

/-- The first three neighbours of a node; a fourth replaces the third. -/
structure AdjSlots where
  adj1 : Nat → Option Nat := fun _ => none
  adj2 : Nat → Option Nat := fun _ => none
  adj3 : Nat → Option Nat := fun _ => none

def AdjSlots.add (slots : AdjSlots) (i j : Nat) : AdjSlots :=
  if slots.adj1 i = none then { slots with adj1 := Function.update slots.adj1 i (some j) }
  else if slots.adj2 i = none then { slots with adj2 := Function.update slots.adj2 i (some j) }
  else { slots with adj3 := Function.update slots.adj3 i (some j) }

/-- The children; `none` is `SteinerNull`. -/
structure Sides where
  left : Nat → Option Nat := fun _ => none
  right : Nat → Option Nat := fun _ => none

/-- The tree of a builder, how many pins there are, and where the driver is. -/
structure SteinerTree where
  branch : List Branch
  pinCount : Nat
  drvrLoc : Int × Int

namespace SteinerTree

variable (tree : SteinerTree)

def branchCount : Nat := tree.branch.length

def n (v : Nat) : Nat := (tree.branch.getD v default).n

def location (v : Nat) : Int × Int := ((tree.branch.getD v default).x, (tree.branch.getD v default).y)

/-- The first node where the driver is. -/
def drvrPt : Option Nat := tree.branch.findIdx? fun b => decide ((b.x, b.y) = tree.drvrLoc)

def slots : AdjSlots :=
  (List.range tree.branchCount).foldl
    (fun slots i => if tree.n i = i then slots else (slots.add i (tree.n i)).add (tree.n i) i) {}

/-- One neighbour of `toPt`: it becomes a child unless it is where the search comes from. -/
def populateSide (recurse : Sides → Nat → Nat → Option Sides) (sides : Sides) (fromPt toPt : Nat)
    (adj : Option Nat) : Option Sides :=
  match adj with
  | none => some sides
  | some adj =>
      if adj = fromPt then some sides
      else if adj = toPt then none
      else if sides.left toPt = none then
        recurse { sides with left := Function.update sides.left toPt (some adj) } toPt adj
      else if sides.right toPt = none then
        recurse { sides with right := Function.update sides.right toPt (some adj) } toPt adj
      else some sides

/-- The recursion ends at the pins; `none` is error 92, or no fuel. -/
def populateSidesFrom (slots : AdjSlots) : Nat → Sides → Nat → Nat → Option Sides
  | 0, _, _, _ => none
  | fuel + 1, sides, fromPt, toPt =>
      if tree.pinCount ≤ toPt then
        run (fun sides adj => populateSide (populateSidesFrom slots fuel) sides fromPt toPt adj) sides
          [slots.adj1 toPt, slots.adj2 toPt, slots.adj3 toPt]
      else some sides

def populateSides : Option Sides := do
  let root ← tree.drvrPt
  let rootAdj := tree.slots.adj1 root
  let sides : Sides := { left := Function.update (fun _ => none) root rootAdj }
  match rootAdj with
  | none => some sides
  | some adj => tree.populateSidesFrom tree.slots tree.branchCount sides root adj

/-- The Manhattan distance of two nodes. -/
def manhattan (a b : Nat) : Int :=
  |(tree.location a).1 - (tree.location b).1| + |(tree.location a).2 - (tree.location b).2|

def distanceFrom (sides : Sides) : Nat → Option Nat → Option Nat → Option Int
  | 0, _, _ => none
  | _ + 1, none, _ => some (-1)
  | _ + 1, _, none => some (-1)
  | fuel + 1, some a, some b =>
      if a = b then some 0
      else if sides.left a = some b ∨ sides.right a = some b then some (tree.manhattan a b)
      else if sides.left a = none ∧ sides.right a = none then some (-1)
      else do
        let findLeft ← distanceFrom sides fuel (sides.left a) (some b)
        if 0 ≤ findLeft then some (findLeft + tree.manhattan a b)
        else do
          let findRight ← distanceFrom sides fuel (sides.right a) (some b)
          if 0 ≤ findRight then some (findRight + tree.manhattan a b) else some (-1)

def distance (sides : Sides) (a b : Option Nat) : Option Int :=
  tree.distanceFrom sides tree.branchCount a b

/-! ### What the view is for -/

def Adj (v w : Nat) : Prop := Adjacent tree.branchCount tree.n v w

def neighbours (v : Nat) : List Nat :=
  (List.range tree.branchCount).filter fun w => decide (w ≠ v ∧ (tree.n v = w ∨ tree.n w = v))

/-- What a builder returns for two pins or more: a tree with the pins first, one of them the driver,
and no more than three neighbours of a node. -/
structure Built : Prop where
  two_le : 2 ≤ tree.pinCount
  pinCount_le : tree.pinCount ≤ tree.branchCount
  drvr : ∃ v < tree.pinCount, tree.location v = tree.drvrLoc
  rooted : ∃ root, Rooted tree.branchCount tree.n root
  degree : ∀ v < tree.branchCount, (tree.neighbours v).length ≤ 3

def Sides.Seen (sides : Sides) (v w : Nat) : Prop := sides.left v = some w ∨ sides.right v = some w

/-- The sum of the edges of a path. -/
def wireLength : List Nat → Int
  | a :: b :: path => tree.manhattan a b + wireLength (b :: path)
  | _ => 0

/-- Every node is seen once from the driver, each beside its parent; a distance is the length of the
tree path between a node and one of its subtree, and `-1` otherwise. -/
structure Faithful (driver : Nat) (sides : Sides) : Prop where
  reached : ∀ v < tree.branchCount, ReflTransGen (Sides.Seen sides) driver v
  once : ∀ v w u, Sides.Seen sides v u → Sides.Seen sides w u → v = w
  apart : ∀ v w, sides.left v = some w → sides.right v ≠ some w
  top : ∀ v, ¬Sides.Seen sides v driver
  adjacent : ∀ v w, Sides.Seen sides v w → tree.Adj v w
  along : ∀ above a path b, Path tree.Adj driver (above ++ a :: path) b →
    tree.distance sides (some a) (some b) = some (tree.wireLength (a :: path))
  beside : ∀ a b, a < tree.branchCount → b < tree.branchCount →
    (∀ path, Path tree.Adj driver path b → a ∉ path) →
    tree.distance sides (some a) (some b) = some (-1)

end SteinerTree

/-! ### The slots -/

/-- The slots hold what was added to a node, as far as they can. -/
def AdjSlots.Hold (slots : AdjSlots) (added : Nat → List Nat) : Prop :=
  ∀ v, slots.adj1 v = (added v)[0]? ∧ slots.adj2 v = (added v)[1]? ∧
    slots.adj3 v = ((added v).drop 2).getLast?

theorem AdjSlots.Hold.add {slots : AdjSlots} {added : Nat → List Nat} (h : slots.Hold added)
    (i j : Nat) : (slots.add i j).Hold fun v => added v ++ if v = i then [j] else [] := by
  intro v
  obtain ⟨h1, h2, h3⟩ := h v
  unfold AdjSlots.add
  beta_reduce
  by_cases hv : v = i
  · subst hv
    rw [if_pos rfl, h1, h2]
    rcases hadded : added v with _ | ⟨a, _ | ⟨b, rest⟩⟩
    · simp [hadded, h2, h3]
    · simp [hadded, h1, h3]
    · simp [hadded, h1, h2, List.getLast?_concat]
  · rw [if_neg hv, List.append_nil]
    split
    · exact ⟨(Function.update_of_ne hv _ _).trans h1, h2, h3⟩
    · split
      · exact ⟨h1, (Function.update_of_ne hv _ _).trans h2, h3⟩
      · exact ⟨h1, h2, (Function.update_of_ne hv _ _).trans h3⟩

theorem AdjSlots.Hold.entries {slots : AdjSlots} {added : Nat → List Nat} (h : slots.Hold added)
    {v : Nat} (hle : (added v).length ≤ 3) :
    [slots.adj1 v, slots.adj2 v, slots.adj3 v].filterMap id = added v := by
  obtain ⟨h1, h2, h3⟩ := h v
  rw [h1, h2, h3]
  rcases hadded : added v with _ | ⟨a, _ | ⟨b, _ | ⟨c, _ | ⟨d, rest⟩⟩⟩⟩
  · rfl
  · rfl
  · rfl
  · rfl
  · have hlong : (added v).length = rest.length + 4 := by rw [hadded]; rfl
    omega

namespace SteinerTree

variable {tree : SteinerTree} {root v w : Nat}

/-- What a branch adds to a node. -/
def entry (tree : SteinerTree) (v i : Nat) : List Nat :=
  if tree.n i = i then []
  else (if v = i then [tree.n i] else []) ++ if v = tree.n i then [i] else []

theorem mem_entry {i : Nat} :
    w ∈ tree.entry v i ↔ tree.n i ≠ i ∧ (v = i ∧ w = tree.n i ∨ v = tree.n i ∧ w = i) := by
  unfold entry
  by_cases hself : tree.n i = i
  · simp [hself]
  · rw [if_neg hself, List.mem_append]
    by_cases hv : v = i
    · have hne : v ≠ tree.n i := fun heq => hself (heq.symm.trans hv)
      simp [hv, hself, Ne.symm hself]
    · simp [hv, hself]

theorem slots_hold (tree : SteinerTree) :
    tree.slots.Hold fun v => (List.range tree.branchCount).flatMap (tree.entry v) := by
  unfold slots
  generalize tree.branchCount = count
  induction count with
  | zero => exact fun v => ⟨rfl, rfl, rfl⟩
  | succ count ih =>
      rw [List.range_succ, List.foldl_append]
      simp only [List.flatMap_append, List.flatMap_singleton, List.foldl_cons, List.foldl_nil]
      by_cases hself : tree.n count = count
      · rw [if_pos hself]
        have hentry : ∀ v, tree.entry v count = [] := fun v => if_pos hself
        simpa only [hentry, List.append_nil] using ih
      · rw [if_neg hself]
        have hentry : ∀ v, tree.entry v count =
            (if v = count then [tree.n count] else []) ++ if v = tree.n count then [count] else [] :=
          fun v => if_neg hself
        simpa only [hentry, ← List.append_assoc] using (ih.add _ _).add _ _

theorem mem_neighbours : w ∈ tree.neighbours v ↔
    w < tree.branchCount ∧ w ≠ v ∧ (tree.n v = w ∨ tree.n w = v) := by
  unfold neighbours
  rw [List.mem_filter, List.mem_range, decide_eq_true_iff]

theorem nodup_neighbours (tree : SteinerTree) (v : Nat) : (tree.neighbours v).Nodup :=
  List.nodup_range.filter _

theorem adj_iff (hv : v < tree.branchCount) : tree.Adj v w ↔ w ∈ tree.neighbours v := by
  rw [mem_neighbours]
  unfold Adj Adjacent Child
  constructor
  · rintro ⟨-, hw, hchild | hchild⟩
    · exact ⟨hw, hchild.1, Or.inr hchild.2⟩
    · exact ⟨hw, hchild.1.symm, Or.inl hchild.2⟩
  · rintro ⟨hw, hne, heq | heq⟩
    · exact ⟨hv, hw, Or.inr ⟨hne.symm, heq⟩⟩
    · exact ⟨hv, hw, Or.inl ⟨hne, heq⟩⟩

/-- The branches add every neighbour of a node once. -/
theorem entries_perm (h : Rooted tree.branchCount tree.n root) (hv : v < tree.branchCount) :
    ((List.range tree.branchCount).flatMap (tree.entry v)).Perm (tree.neighbours v) := by
  have hnodup : ((List.range tree.branchCount).flatMap (tree.entry v)).Nodup := by
    rw [List.nodup_flatMap]
    refine ⟨fun i _ => ?_, ?_⟩
    · unfold entry
      by_cases hself : tree.n i = i
      · simp [hself]
      · by_cases hvi : v = i
        · simp [hvi, hself, Ne.symm hself]
        · by_cases hvn : v = tree.n i <;> simp [hself, hvi, hvn]
    · refine List.nodup_range.imp_of_mem fun {i j} hi hj hne => ?_
      rw [Function.onFun_apply, List.disjoint_left]
      intro w hwi hwj
      obtain ⟨hi', hwi⟩ := mem_entry.mp hwi
      obtain ⟨hj', hwj⟩ := mem_entry.mp hwj
      -- two branches that join the same two nodes point to each other
      have htwo : tree.n i = j ∧ tree.n j = i := by
        rcases hwi with ⟨h1, h2⟩ | ⟨h1, h2⟩ <;> rcases hwj with ⟨h3, h4⟩ | ⟨h3, h4⟩
        · exact absurd (h1.symm.trans h3) hne
        · exact ⟨h2.symm.trans h4, h3.symm.trans h1⟩
        · exact ⟨h1.symm.trans h3, h4.symm.trans h2⟩
        · exact absurd (h2.symm.trans h4) hne
      have hchild : Child tree.n j i := ⟨hne, htwo.1⟩
      exact h.not_under_of_child (List.mem_range.mp hj) hchild
        (ReflTransGen.single ⟨hne.symm, htwo.2⟩)
  refine (List.perm_ext_iff_of_nodup hnodup (tree.nodup_neighbours v)).mpr fun w => ?_
  rw [List.mem_flatMap, mem_neighbours]
  constructor
  · rintro ⟨i, hi, hw⟩
    obtain ⟨hself, ⟨rfl, rfl⟩ | ⟨rfl, rfl⟩⟩ := mem_entry.mp hw
    · exact ⟨h.up_lt _ hv, hself, Or.inl rfl⟩
    · exact ⟨List.mem_range.mp hi, Ne.symm hself, Or.inr rfl⟩
  · rintro ⟨hw, hne, heq | heq⟩
    · exact ⟨v, List.mem_range.mpr hv, mem_entry.mpr ⟨heq ▸ hne, Or.inl ⟨rfl, heq.symm⟩⟩⟩
    · exact ⟨w, List.mem_range.mpr hw, mem_entry.mpr ⟨heq ▸ hne.symm, Or.inr ⟨heq.symm, rfl⟩⟩⟩

theorem Built.slots_perm (hbuilt : tree.Built) (hv : v < tree.branchCount) :
    ([tree.slots.adj1 v, tree.slots.adj2 v, tree.slots.adj3 v].filterMap id).Perm
      (tree.neighbours v) := by
  obtain ⟨root, hrooted⟩ := hbuilt.rooted
  have hperm := entries_perm hrooted hv
  rw [(slots_hold tree).entries (hperm.length_eq ▸ hbuilt.degree v hv)]
  exact hperm

/-! ### The children -/

/-- Only neighbours other than the one the search comes from count. -/
theorem run_populateSide (recurse : Sides → Nat → Nat → Option Sides) (sides : Sides)
    (fromPt toPt : Nat) (adjs : List (Option Nat)) :
    run (fun sides adj => populateSide recurse sides fromPt toPt adj) sides adjs =
      run (fun sides adj => populateSide recurse sides fromPt toPt (some adj)) sides
        ((adjs.filterMap id).filter fun adj => decide (adj ≠ fromPt)) := by
  induction adjs generalizing sides with
  | nil => rfl
  | cons adj adjs ih =>
      cases adj with
      | none => exact ih sides
      | some adj =>
          by_cases heq : adj = fromPt
          · rw [run_cons, List.filterMap_cons_some (f := id) rfl,
              List.filter_cons_of_neg (by simp [heq])]
            have hskip : populateSide recurse sides fromPt toPt (some adj) = some sides := if_pos heq
            rw [hskip]
            exact ih sides
          · rw [run_cons, List.filterMap_cons_some (f := id) rfl,
              List.filter_cons_of_pos (by simp [heq]), run_cons]
            exact congrArg _ (funext ih)

/-- The tree seen from the driver. -/
structure Turned (tree : SteinerTree) (up : Nat → Nat) (driver : Nat) : Prop where
  built : tree.Built
  rooted : Rooted tree.branchCount up driver
  same : ∀ a b, Adjacent tree.branchCount up a b ↔ tree.Adj a b
  drvrPt : tree.drvrPt = some driver
  driver_lt : driver < tree.pinCount

namespace Turned

variable {up : Nat → Nat} {driver : Nat} (h : tree.Turned up driver)

include h

/-- The neighbours of a node are its children and its parent. -/
theorem mem_neighbours_iff (hv : v < tree.branchCount) :
    w ∈ tree.neighbours v ↔ w < tree.branchCount ∧ (Child up v w ∨ Child up w v) := by
  rw [← adj_iff hv, ← h.same]
  exact ⟨fun hadj => hadj.2, fun hadj => ⟨hv, hadj.1, hadj.2⟩⟩

/-- Other than the driver, a node has at most two children in its slots. -/
theorem children (hv : v < tree.branchCount) (hne : v ≠ driver) :
    ∃ kids, ([tree.slots.adj1 v, tree.slots.adj2 v, tree.slots.adj3 v].filterMap id).filter
        (fun adj => decide (adj ≠ up v)) = kids ∧ kids.length ≤ 2 ∧ kids.Nodup ∧
      ∀ w, w ∈ kids ↔ w < tree.branchCount ∧ Child up v w := by
  have hperm := h.built.slots_perm hv
  have hchild := h.rooted.child_up hv hne
  have hup : up v ∈ tree.neighbours v :=
    (h.mem_neighbours_iff hv).mpr ⟨h.rooted.up_lt v hv, Or.inr hchild⟩
  have hdegree := h.built.degree v hv
  refine ⟨_, rfl, ?_, (hperm.nodup_iff.mpr (tree.nodup_neighbours v)).filter _, fun w => ?_⟩
  · rw [(hperm.filter _).length_eq]
    have hlt : ((tree.neighbours v).filter fun adj => decide (adj ≠ up v)).length <
        (tree.neighbours v).length :=
      List.length_filter_lt_length_iff_exists.mpr ⟨up v, hup, by simp⟩
    omega
  · rw [List.mem_filter, hperm.mem_iff, h.mem_neighbours_iff hv, decide_eq_true_iff]
    constructor
    · rintro ⟨⟨hw, hkid | hpar⟩, hnot⟩
      · exact ⟨hw, hkid⟩
      · exact absurd hpar.2.symm hnot
    · rintro ⟨hw, hkid⟩
      refine ⟨⟨hw, Or.inl hkid⟩, ?_⟩
      rintro rfl
      exact h.rooted.not_under_of_child hv hkid (ReflTransGen.single hchild)

end Turned

/-- The children of a node are to its left and right, each on one side. -/
structure Kids (count : Nat) (up : Nat → Nat) (sides : Sides) (v : Nat) : Prop where
  seen : ∀ w, Sides.Seen sides v w ↔ w < count ∧ Child up v w
  apart : ∀ w, sides.left v = some w → sides.right v ≠ some w

theorem Kids.congr {count : Nat} {up : Nat → Nat} {sides sides' : Sides}
    (h : Kids count up sides v) (hleft : sides'.left v = sides.left v)
    (hright : sides'.right v = sides.right v) : Kids count up sides' v := by
  refine ⟨fun w => ?_, fun w => ?_⟩
  · rw [Sides.Seen, hleft, hright]
    exact h.seen w
  · rw [hleft, hright]
    exact h.apart w

namespace Turned

variable {up : Nat → Nat} {driver : Nat} (h : tree.Turned up driver)

include h

/-- Below a node whose pins have no children, all children are filled in, and nothing else is
changed. -/
theorem populateSidesFrom_spec
    (hleaf : ∀ v < tree.pinCount, v ≠ driver → ∀ w < tree.branchCount, ¬Child up v w)
    (fuel : Nat) (sides : Sides) (v : Nat) (hv : v < tree.branchCount) (hne : v ≠ driver)
    (hfuel : size tree.branchCount up v ≤ fuel)
    (hempty : ∀ u, Under up v u → sides.left u = none ∧ sides.right u = none) :
    ∃ sides', tree.populateSidesFrom tree.slots fuel sides (up v) v = some sides' ∧
      (∀ u, ¬Under up v u → sides'.left u = sides.left u ∧ sides'.right u = sides.right u) ∧
      ∀ u < tree.branchCount, Under up v u → Kids tree.branchCount up sides' u := by
  induction fuel generalizing sides v with
  | zero =>
      have := @Rooted.size_pos _ up _ hv
      omega
  | succ fuel ih =>
      unfold populateSidesFrom
      have hself := hempty v ReflTransGen.refl
      -- with no children there is only the node itself
      have halone : (∀ w < tree.branchCount, ¬Child up v w) →
          ∀ u < tree.branchCount, Under up v u → Kids tree.branchCount up sides u := by
        intro hnone u hu hunder
        obtain rfl : v = u := by
          rcases ReflTransGen.cases_head hunder with heq | ⟨c, hchild, hrest⟩
          · exact heq
          · exact absurd hchild (hnone c (h.rooted.under_lt hrest hu))
        refine ⟨fun w => ⟨?_, fun hw => absurd hw.2 (hnone w hw.1)⟩, fun w hw => ?_⟩
        · rintro (hw | hw)
          · exact absurd (hself.1.symm.trans hw) (by simp)
          · exact absurd (hself.2.symm.trans hw) (by simp)
        · exact absurd (hself.1.symm.trans hw) (by simp)
      by_cases hpin : tree.pinCount ≤ v
      · rw [if_pos hpin, run_populateSide]
        obtain ⟨kids, hkids, hlength, hnodup, hmem⟩ := h.children hv hne
        rw [hkids]
        -- one child and what is below it
        have hstep : ∀ (s : Sides) (c : Nat), c ∈ kids →
            (∀ u, Under up c u → s.left u = none ∧ s.right u = none) →
            ∃ s', tree.populateSidesFrom tree.slots fuel s v c = some s' ∧
              (∀ u, ¬Under up c u → s'.left u = s.left u ∧ s'.right u = s.right u) ∧
              ∀ u < tree.branchCount, Under up c u → Kids tree.branchCount up s' u := by
          intro s c hc hs
          obtain ⟨hlt, hchild⟩ := (hmem c).mp hc
          have hsize := h.rooted.size_child_lt hchild hlt
          have hnot : c ≠ driver := fun heq => h.rooted.not_child_root v (heq ▸ hchild)
          have hspec := ih s c hlt hnot (by omega) hs
          rwa [hchild.2] at hspec
        have hapart : ∀ c ∈ kids, ¬Under up c v := fun c hc =>
          h.rooted.not_under_of_child hv ((hmem c).mp hc).2
        have hbelow : ∀ c ∈ kids, ∀ u, Under up c u → Under up v u := fun c hc u hu =>
          ReflTransGen.head ((hmem c).mp hc).2 hu
        have hskip : ∀ c ∈ kids, c ≠ up v ∧ c ≠ v := by
          intro c hc
          obtain ⟨hlt, hchild⟩ := (hmem c).mp hc
          refine ⟨?_, hchild.1⟩
          rintro rfl
          exact hapart _ hc (ReflTransGen.single (h.rooted.child_up hv hne))
        rcases kids with _ | ⟨c, rest⟩
        · refine ⟨sides, rfl, fun u _ => ⟨rfl, rfl⟩, halone fun w hw hchild => ?_⟩
          exact absurd ((hmem w).mpr ⟨hw, hchild⟩) List.not_mem_nil
        -- the first child goes to the left
        have hc : c ∈ c :: rest := List.mem_cons_self
        obtain ⟨s, hrun, hout, hkidsc⟩ := hstep
          { sides with left := Function.update sides.left v (some c) } c hc fun u hu => by
            have hu' : u ≠ v := fun heq => hapart c hc (heq ▸ hu)
            exact ⟨(Function.update_of_ne hu' _ _).trans (hempty u (hbelow c hc u hu)).1,
              (hempty u (hbelow c hc u hu)).2⟩
        have hleft : s.left v = some c := (hout v (hapart c hc)).1.trans (Function.update_self _ _ _)
        have hright : s.right v = none := (hout v (hapart c hc)).2.trans hself.2
        have hkeep : ∀ u, u ≠ v → ¬Under up c u →
            s.left u = sides.left u ∧ s.right u = sides.right u := fun u hu hnot =>
          ⟨(hout u hnot).1.trans (Function.update_of_ne hu _ _), (hout u hnot).2⟩
        have hside : populateSide (tree.populateSidesFrom tree.slots fuel) sides (up v) v (some c) =
            some s := by
          unfold populateSide
          dsimp only
          rw [if_neg (hskip c hc).1, if_neg (hskip c hc).2, if_pos hself.1]
          exact hrun
        rw [run_cons, hside]
        rcases rest with _ | ⟨d, _ | ⟨e, rest⟩⟩
        · refine ⟨s, rfl, fun u hu => ?_, fun u hu hunder => ?_⟩
          · exact hkeep u (fun heq => hu (heq ▸ ReflTransGen.refl)) fun hcu => hu (hbelow c hc u hcu)
          · rcases ReflTransGen.cases_head hunder with rfl | ⟨w, hchild, hrest⟩
            · refine ⟨fun w => ?_, fun w _ => ?_⟩
              · rw [← hmem, List.mem_singleton, Sides.Seen, hleft, hright]
                simp [eq_comm]
              · rw [hright]
                exact (Option.some_ne_none w).symm
            · have hw := (hmem w).mpr ⟨h.rooted.under_lt hrest hu, hchild⟩
              rw [List.mem_singleton.mp hw] at hrest
              exact hkidsc u hu hrest
        · -- the second one to the right
          have hd : d ∈ [c, d] := List.mem_cons_of_mem c List.mem_cons_self
          have hcd : c ≠ d := fun heq => (List.nodup_cons.mp hnodup).1 (heq ▸ List.mem_cons_self)
          have hdisjoint : ∀ u, Under up d u → ¬Under up c u := fun u hdu hcu =>
            hcd (h.rooted.child_unique hv ((hmem c).mp hc).2 ((hmem d).mp hd).2 hcu hdu)
          obtain ⟨t, hrun', hout', hkidsd⟩ := hstep
            { s with right := Function.update s.right v (some d) } d hd fun u hu => by
              have hu' : u ≠ v := fun heq => hapart d hd (heq ▸ hu)
              obtain ⟨hl, hr⟩ := hkeep u hu' (hdisjoint u hu)
              obtain ⟨hl', hr'⟩ := hempty u (hbelow d hd u hu)
              exact ⟨hl.trans hl', (Function.update_of_ne hu' _ _).trans (hr.trans hr')⟩
          have hside' : populateSide (tree.populateSidesFrom tree.slots fuel) s (up v) v (some d) =
              some t := by
            unfold populateSide
            dsimp only
            rw [if_neg (hskip d hd).1, if_neg (hskip d hd).2, if_neg (by rw [hleft]; simp),
              if_pos hright]
            exact hrun'
          have hkeep' : ∀ u, u ≠ v → ¬Under up d u → t.left u = s.left u ∧ t.right u = s.right u :=
            fun u hu hnot => ⟨(hout' u hnot).1, (hout' u hnot).2.trans (Function.update_of_ne hu _ _)⟩
          refine ⟨t, by rw [Option.bind_some, run_cons, hside']; rfl, fun u hu => ?_,
            fun u hu hunder => ?_⟩
          · have hu' : u ≠ v := fun heq => hu (heq ▸ ReflTransGen.refl)
            obtain ⟨hl, hr⟩ := hkeep' u hu' fun hdu => hu (hbelow d hd u hdu)
            obtain ⟨hl', hr'⟩ := hkeep u hu' fun hcu => hu (hbelow c hc u hcu)
            exact ⟨hl.trans hl', hr.trans hr'⟩
          · rcases ReflTransGen.cases_head hunder with rfl | ⟨w, hchild, hrest⟩
            · have hl : t.left v = some c := (hout' v (hapart d hd)).1.trans hleft
              have hr : t.right v = some d :=
                (hout' v (hapart d hd)).2.trans (Function.update_self _ _ _)
              refine ⟨fun w => ?_, fun w hw => ?_⟩
              · rw [← hmem, Sides.Seen, hl, hr]
                simp [eq_comm]
              · rw [hl] at hw
                rw [hr, ← hw]
                exact fun heq => hcd (Option.some.inj heq).symm
            · have hw := (hmem w).mpr ⟨h.rooted.under_lt hrest hu, hchild⟩
              have hu' : u ≠ v := by
                rintro rfl
                exact h.rooted.not_under_of_child hv hchild hrest
              rcases List.mem_cons.mp hw with rfl | hwd
              · obtain ⟨hl, hr⟩ := hkeep' u hu' fun hdu => hdisjoint u hdu hrest
                exact (hkidsc u hu hrest).congr hl hr
              · rw [List.mem_singleton.mp hwd] at hrest
                exact hkidsd u hu hrest
        · simp at hlength
      · rw [if_neg hpin]
        exact ⟨sides, rfl, fun u _ => ⟨rfl, rfl⟩, halone (hleaf v (Nat.lt_of_not_le hpin) hne)⟩

end Turned

/-- What is filled in at any rate: children only, none at a pin, and one at the driver. -/
structure Linked (tree : SteinerTree) (up : Nat → Nat) (driver : Nat) (sides : Sides) : Prop where
  seen : ∀ v w, Sides.Seen sides v w → w < tree.branchCount ∧ Child up v w
  pin : ∀ v < tree.pinCount, v ≠ driver → sides.left v = none ∧ sides.right v = none
  driver : sides.right driver = none

theorem Linked.set_left {up : Nat → Nat} {driver : Nat} {sides : Sides}
    (h : tree.Linked up driver sides) (hw : w < tree.branchCount) (hchild : Child up v w)
    (hpin : v < tree.pinCount → v = driver) :
    tree.Linked up driver { sides with left := Function.update sides.left v (some w) } := by
  refine ⟨fun u x hseen => ?_, fun u hu hne => ?_, h.driver⟩
  · by_cases huv : u = v
    · subst huv
      rcases hseen with hl | hr
      · obtain rfl : w = x :=
          Option.some.inj ((Function.update_self u (some w) sides.left).symm.trans hl)
        exact ⟨hw, hchild⟩
      · exact h.seen u x (Or.inr hr)
    · refine h.seen u x (hseen.imp_left fun hl => ?_)
      exact (Function.update_of_ne huv _ _).symm.trans hl
  · have huv : u ≠ v := fun heq => hne (heq.trans (hpin (heq ▸ hu)))
    exact ⟨(Function.update_of_ne huv _ _).trans (h.pin u hu hne).1, (h.pin u hu hne).2⟩

theorem Linked.set_right {up : Nat → Nat} {driver : Nat} {sides : Sides}
    (h : tree.Linked up driver sides) (hw : w < tree.branchCount) (hchild : Child up v w)
    (hpin : tree.pinCount ≤ v) (hdriver : driver < tree.pinCount) :
    tree.Linked up driver { sides with right := Function.update sides.right v (some w) } := by
  refine ⟨fun u x hseen => ?_, fun u hu hne => ?_, ?_⟩
  · by_cases huv : u = v
    · subst huv
      rcases hseen with hl | hr
      · exact h.seen u x (Or.inl hl)
      · obtain rfl : w = x :=
          Option.some.inj ((Function.update_self u (some w) sides.right).symm.trans hr)
        exact ⟨hw, hchild⟩
    · refine h.seen u x (hseen.imp_right fun hr => ?_)
      exact (Function.update_of_ne huv _ _).symm.trans hr
  · have huv : u ≠ v := by omega
    exact ⟨(h.pin u hu hne).1, (Function.update_of_ne huv _ _).trans (h.pin u hu hne).2⟩
  · exact (Function.update_of_ne (by omega) _ _).trans h.driver

namespace Turned

variable {up : Nat → Nat} {driver : Nat} (h : tree.Turned up driver)

include h

theorem populateSidesFrom_linked (fuel : Nat) (sides sides' : Sides) (v : Nat)
    (hv : v < tree.branchCount) (hne : v ≠ driver) (hlinked : tree.Linked up driver sides)
    (hrun : tree.populateSidesFrom tree.slots fuel sides (up v) v = some sides') :
    tree.Linked up driver sides' := by
  induction fuel generalizing sides sides' v with
  | zero => exact absurd hrun (by simp [populateSidesFrom])
  | succ fuel ih =>
      unfold populateSidesFrom at hrun
      split at hrun
      case isFalse => exact Option.some.inj hrun ▸ hlinked
      case isTrue hpin =>
        rw [run_populateSide] at hrun
        obtain ⟨kids, hkids, -, -, hmem⟩ := h.children hv hne
        rw [hkids] at hrun
        have hall : ∀ c ∈ kids, c < tree.branchCount ∧ Child up v c := fun c hc => (hmem c).mp hc
        clear hkids hmem
        induction kids generalizing sides with
        | nil => exact Option.some.inj hrun ▸ hlinked
        | cons c kids ihkids =>
            obtain ⟨t, hside, hrest⟩ := Option.bind_eq_some_iff.mp hrun
            refine ihkids t ?_ hrest fun d hd => hall d (List.mem_cons_of_mem c hd)
            obtain ⟨hlt, hchild⟩ := hall c List.mem_cons_self
            have hnot : c ≠ driver := fun heq => h.rooted.not_child_root v (heq ▸ hchild)
            have hup : up c = v := hchild.2
            have hdriver := h.driver_lt
            simp only [populateSide] at hside
            split_ifs at hside
            · exact Option.some.inj hside ▸ hlinked
            · refine ih _ t c hlt hnot (hlinked.set_left hlt hchild (by omega)) ?_
              rw [hup]
              exact hside
            · refine ih _ t c hlt hnot (hlinked.set_right hlt hchild hpin hdriver) ?_
              rw [hup]
              exact hside
            · exact Option.some.inj hside ▸ hlinked

/-- The first slot has a neighbour if there is one. -/
theorem adj1_eq (hv : v < tree.branchCount) :
    (∃ c ∈ tree.neighbours v, tree.slots.adj1 v = some c) ∨
      tree.neighbours v = [] ∧ tree.slots.adj1 v = none := by
  obtain ⟨root, hrooted⟩ := h.built.rooted
  have hperm := entries_perm hrooted hv
  have hfirst : tree.slots.adj1 v =
      ((List.range tree.branchCount).flatMap (tree.entry v))[0]? := (slots_hold tree v).1
  rcases hentries : (List.range tree.branchCount).flatMap (tree.entry v) with _ | ⟨c, rest⟩
  · rw [hentries] at hperm hfirst
    exact Or.inr ⟨hperm.nil_eq.symm, hfirst⟩
  · rw [hentries] at hperm hfirst
    exact Or.inl ⟨c, hperm.mem_iff.mp List.mem_cons_self, hfirst⟩

theorem driver_lt_branchCount : driver < tree.branchCount :=
  h.driver_lt.trans_le h.built.pinCount_le

/-- The driver has a child: there are two pins. -/
theorem adj1_driver : ∃ c, tree.slots.adj1 driver = some c ∧ c < tree.branchCount ∧
    Child up driver c := by
  have hlt := h.driver_lt_branchCount
  rcases h.adj1_eq hlt with ⟨c, hc, hadj⟩ | ⟨hnil, -⟩
  · obtain ⟨hclt, hchild | hchild⟩ := (h.mem_neighbours_iff hlt).mp hc
    · exact ⟨c, hadj, hclt, hchild⟩
    · exact absurd hchild (h.rooted.not_child_root c)
  · obtain ⟨v, hv, hne⟩ : ∃ v < tree.branchCount, driver ≠ v := by
      have htwo := h.built.two_le
      have hle := h.built.pinCount_le
      by_cases hzero : driver = 0
      · exact ⟨1, by omega, by omega⟩
      · exact ⟨0, by omega, hzero⟩
    rcases ReflTransGen.cases_head (h.rooted.under_root hv) with heq | ⟨c, hchild, hrest⟩
    · exact absurd heq hne
    · have hmem := (h.mem_neighbours_iff hlt).mpr ⟨h.rooted.under_lt hrest hv, Or.inl hchild⟩
      exact absurd (hnil ▸ hmem) List.not_mem_nil

theorem populateSides_eq {c : Nat} (hc : tree.slots.adj1 driver = some c) :
    tree.populateSides = tree.populateSidesFrom tree.slots tree.branchCount
      { left := Function.update (fun _ => none) driver (some c) } driver c := by
  unfold populateSides
  rw [h.drvrPt]
  simp only [Option.bind_eq_bind, Option.bind_some, hc]

theorem populateSides_linked {sides : Sides} (hrun : tree.populateSides = some sides) :
    tree.Linked up driver sides := by
  obtain ⟨c, hc, hlt, hchild⟩ := h.adj1_driver
  rw [h.populateSides_eq hc, ← hchild.2] at hrun
  have hnot : c ≠ driver := fun heq => h.rooted.not_child_root driver (heq ▸ hchild)
  have hempty : tree.Linked up driver {} := by
    refine ⟨fun v w hseen => ?_, fun _ _ _ => ⟨rfl, rfl⟩, rfl⟩
    rcases hseen with hw | hw
    · exact absurd hw (by simp)
    · exact absurd hw (by simp)
  refine h.populateSidesFrom_linked _ _ sides c hlt hnot ?_ hrun
  rw [hchild.2]
  exact hempty.set_left hlt hchild fun _ => rfl

/-- With every pin a leaf, the children of all nodes are filled in. -/
theorem populateSides_kids (hleaf : ∀ v < tree.pinCount, (tree.neighbours v).length ≤ 1) :
    ∃ sides, tree.populateSides = some sides ∧
      ∀ v < tree.branchCount, Kids tree.branchCount up sides v := by
  obtain ⟨c, hc, hlt, hchild⟩ := h.adj1_driver
  have hnot : c ≠ driver := fun heq => h.rooted.not_child_root driver (heq ▸ hchild)
  have htop : ¬Under up c driver := h.rooted.not_under_of_child h.driver_lt_branchCount hchild
  -- two neighbours of a pin are one
  have hone : ∀ v < tree.pinCount, ∀ a ∈ tree.neighbours v, ∀ b ∈ tree.neighbours v, a = b := by
    intro v hv a ha b hb
    obtain ⟨x, hx⟩ : ∃ x, tree.neighbours v = [x] :=
      List.length_eq_one_iff.mp (Nat.le_antisymm (hleaf v hv) (List.length_pos_of_mem ha))
    rw [hx] at ha hb
    exact (List.mem_singleton.mp ha).trans (List.mem_singleton.mp hb).symm
  have hnone : ∀ v < tree.pinCount, v ≠ driver → ∀ w < tree.branchCount, ¬Child up v w := by
    intro v hv hne w hw hkid
    have hv' := hv.trans_le h.built.pinCount_le
    have hup := h.rooted.child_up hv' hne
    have heq := hone v hv w ((h.mem_neighbours_iff hv').mpr ⟨hw, Or.inl hkid⟩) (up v)
      ((h.mem_neighbours_iff hv').mpr ⟨h.rooted.up_lt v hv', Or.inr hup⟩)
    exact h.rooted.not_under_of_child hv' hkid (heq ▸ ReflTransGen.single hup)
  obtain ⟨sides, hrun, hout, hkids⟩ := h.populateSidesFrom_spec hnone tree.branchCount
    { left := Function.update (fun _ => none) driver (some c) } c hlt hnot (Rooted.size_le up c) fun u hu => by
      have hu' : u ≠ driver := by
        rintro rfl
        exact htop hu
      exact ⟨Function.update_of_ne hu' (some c) fun _ => none, rfl⟩
  rw [hchild.2] at hrun
  refine ⟨sides, (h.populateSides_eq hc).trans hrun, fun v hv => ?_⟩
  have hmem : ∀ w, w < tree.branchCount ∧ Child up driver w → w = c := fun w hw =>
    hone driver h.driver_lt w
      ((h.mem_neighbours_iff h.driver_lt_branchCount).mpr ⟨hw.1, Or.inl hw.2⟩) c
      ((h.mem_neighbours_iff h.driver_lt_branchCount).mpr ⟨hlt, Or.inl hchild⟩)
  rcases ReflTransGen.cases_head (h.rooted.under_root hv) with rfl | ⟨d, hd, hrest⟩
  · have hleft : sides.left driver = some c :=
      (hout driver htop).1.trans (Function.update_self driver (some c) fun _ => none)
    have hright : sides.right driver = none := (hout driver htop).2
    refine ⟨fun w => ?_, fun w _ => by rw [hright]; exact (Option.some_ne_none w).symm⟩
    rw [Sides.Seen, hleft, hright]
    constructor
    · rintro (heq | heq)
      · exact Option.some.inj heq ▸ ⟨hlt, hchild⟩
      · exact absurd heq (by simp)
    · exact fun hw => Or.inl (congrArg some (hmem w hw).symm)
  · rw [hmem d ⟨h.rooted.under_lt hrest hv, hd⟩] at hrest
    exact hkids v hv hrest

end Turned

end SteinerTree

end OpenRoad.Rsz
