import OpenRoad.DriverPath
import Mathlib.Data.Finset.Card
import Mathlib.Data.List.Chain
import Mathlib.Data.List.Nodup
import Mathlib.Logic.Function.Basic
import Mathlib.Logic.Relation
import Mathlib.Tactic.Common

/-!
Trees given by parent pointers. A node that is not its own parent is a child; two nodes are adjacent
when one is the parent of the other. A tree can be turned so that any node becomes the root, and from
the root all paths lead downwards.
-/

namespace OpenRoad.ParentTree

open DriverPath Relation

/-- `w` is a child of `v`. -/
def Child (up : Nat → Nat) (v w : Nat) : Prop := w ≠ v ∧ up w = v

/-- `w` is `v` or below it. -/
def Under (up : Nat → Nat) : Nat → Nat → Prop := ReflTransGen (Child up)

/-- All nodes below `count` hang from the root. -/
structure Rooted (count : Nat) (up : Nat → Nat) (root : Nat) : Prop where
  root_lt : root < count
  up_root : up root = root
  up_lt : ∀ v < count, up v < count
  below : ∀ v < count, ∃ k, Below (Child up) root v k

def Adjacent (count : Nat) (up : Nat → Nat) (v w : Nat) : Prop :=
  v < count ∧ w < count ∧ (Child up v w ∨ Child up w v)

open Classical in
/-- How many nodes are below a node. -/
noncomputable def size (count : Nat) (up : Nat → Nat) (v : Nat) : Nat :=
  ((Finset.range count).filter (Under up v)).card

/-- A path that meets no node twice. -/
structure Path (adjacent : Nat → Nat → Prop) (a : Nat) (l : List Nat) (b : Nat) : Prop where
  head : l.head? = some a
  last : l.getLast? = some b
  nodup : l.Nodup
  chain : l.IsChain adjacent

namespace Rooted

variable {count : Nat} {up : Nat → Nat} {root v w a b c : Nat} (h : Rooted count up root)

include h

theorem not_child_root (v : Nat) : ¬Child up v root := fun hchild =>
  hchild.1 (h.up_root.symm.trans hchild.2)

theorem below_unique {k l : Nat} (hk : Below (Child up) root v k)
    (hl : Below (Child up) root v l) : k = l :=
  hk.unique (fun _ _ _ hd hd' => hd.2.symm.trans hd'.2) h.not_child_root hl

/-- Only the root is its own parent. -/
theorem child_up (hv : v < count) (hne : v ≠ root) : Child up (up v) v := by
  obtain ⟨k, hk⟩ := h.below v hv
  cases hk with
  | top => exact absurd rfl hne
  | load _ hchild => exact hchild.2 ▸ hchild

theorem child_lt (hchild : Child up v w) (hw : w < count) : v < count := hchild.2 ▸ h.up_lt w hw

omit h in
/-- A node is deeper than those above it. -/
theorem depth_le (hunder : Under up a v) {k : Nat} (ha : Below (Child up) root a k) :
    ∃ l, Below (Child up) root v l ∧ k ≤ l := by
  induction hunder with
  | refl => exact ⟨k, ha, le_rfl⟩
  | tail _ hchild ih =>
      obtain ⟨l, hl, hle⟩ := ih
      exact ⟨l + 1, .load hl hchild, Nat.le_succ_of_le hle⟩

/-- Nothing above a child is below it. -/
theorem not_under_of_child (hv : v < count) (hchild : Child up v w) : ¬Under up w v := by
  intro hunder
  obtain ⟨k, hk⟩ := h.below v hv
  obtain ⟨l, hl, hle⟩ := depth_le hunder (.load hk hchild)
  have := h.below_unique hk hl
  omega

theorem under_lt (hunder : Under up a v) (hv : v < count) : a < count := by
  induction hunder with
  | refl => exact hv
  | tail _ hchild ih => exact ih (h.child_lt hchild hv)

omit h in
/-- Two nodes above the same one are one above the other. -/
theorem under_total (ha : Under up a v) (hb : Under up b v) : Under up a b ∨ Under up b a := by
  induction ha with
  | refl => exact Or.inr hb
  | tail hfirst hchild ih =>
      rcases ReflTransGen.cases_tail hb with heq | ⟨c, hbc, hchild'⟩
      · exact Or.inl (heq ▸ hfirst.tail hchild)
      · exact ih ((hchild.2.symm.trans hchild'.2) ▸ hbc)

/-- The subtrees of two children are disjoint. -/
theorem child_unique (hv : v < count) (hb : Child up v b) (hc : Child up v c) (hub : Under up b w)
    (huc : Under up c w) : b = c := by
  have hone : ∀ {b c}, Child up v b → Child up v c → Under up b c → b = c := by
    intro b c hb hc hunder
    rcases ReflTransGen.cases_tail hunder with heq | ⟨d, hbd, hchild⟩
    · exact heq.symm
    · have hd : d = v := hchild.2.symm.trans hc.2
      exact absurd (hd ▸ hbd) (h.not_under_of_child hv hb)
  rcases under_total hub huc with hunder | hunder
  · exact hone hb hc hunder
  · exact (hone hc hb hunder).symm

theorem under_root (hv : v < count) : Under up root v := by
  obtain ⟨k, hk⟩ := h.below v hv
  induction hk with
  | top => exact ReflTransGen.refl
  | load _ hchild ih => exact (ih (h.child_lt hchild hv)).tail hchild

/-! ### Turning -/

/-- A child of the root becomes the root. -/
theorem turn (hchild : Child up root c) (hc : c < count) :
    Rooted count (Function.update (Function.update up root c) c c) c ∧
      ∀ v w, Adjacent count (Function.update (Function.update up root c) c c) v w ↔
        Adjacent count up v w := by
  obtain ⟨hne, hup⟩ := hchild
  have hroot := h.up_root
  have hat : ∀ v, Function.update (Function.update up root c) c c v =
      if v = c then c else if v = root then c else up v := by
    intro v
    rw [Function.update_apply, Function.update_apply]
  refine ⟨⟨hc, by rw [hat, if_pos rfl], fun v hv => ?_, fun v hv => ?_⟩, fun v w => ?_⟩
  · rw [hat]
    split
    · exact hc
    · split
      · exact hc
      · exact h.up_lt v hv
  · obtain ⟨k, hk⟩ := h.below v hv
    clear hv
    induction hk with
    | top => exact ⟨1, .load .top ⟨hne.symm, by rw [hat, if_neg hne.symm, if_pos rfl]⟩⟩
    | @load d v k _ hdv ih =>
        by_cases hvc : v = c
        · exact ⟨0, hvc ▸ .top⟩
        · obtain ⟨l, hl⟩ := ih
          have hvr : v ≠ root := fun heq => h.not_child_root d (heq ▸ hdv)
          refine ⟨l + 1, .load hl ⟨hdv.1, ?_⟩⟩
          rw [hat, if_neg hvc, if_neg hvr]
          exact hdv.2
  · unfold Adjacent Child
    rw [hat, hat]
    grind

/-- Any node can be made the root, with the same nodes adjacent. -/
theorem reroot (hv : v < count) : ∃ up', Rooted count up' v ∧
    ∀ a b, Adjacent count up' a b ↔ Adjacent count up a b := by
  obtain ⟨k, hk⟩ := h.below v hv
  induction hk with
  | top => exact ⟨up, h, fun _ _ => Iff.rfl⟩
  | @load d v k _ hdv ih =>
      have hd : d < count := h.child_lt hdv hv
      obtain ⟨up', hrooted, hsame⟩ := ih hd
      -- the old parent is the root now, so the node is its child
      have hchild : Child up' d v := by
        rcases ((hsame d v).mpr ⟨hd, hv, Or.inl hdv⟩).2.2 with hchild | hchild
        · exact hchild
        · exact absurd hchild (hrooted.not_child_root v)
      obtain ⟨hturned, hturn⟩ := hrooted.turn hchild hv
      exact ⟨_, hturned, fun a b => (hturn a b).trans (hsame a b)⟩

/-! ### Subtrees -/

omit h in
theorem size_pos (hv : v < count) : 0 < size count up v := by
  classical
  exact Finset.card_pos.mpr ⟨v, Finset.mem_filter.mpr ⟨Finset.mem_range.mpr hv, ReflTransGen.refl⟩⟩

omit h in
theorem size_le (up : Nat → Nat) (v : Nat) : size count up v ≤ count := by
  classical
  exact (Finset.card_filter_le _ _).trans (Finset.card_range count).le

theorem size_child_lt (hchild : Child up v w) (hw : w < count) :
    size count up w < size count up v := by
  classical
  have hv := h.child_lt hchild hw
  refine Finset.card_lt_card ⟨fun u hu => ?_, fun hsub => ?_⟩
  · obtain ⟨hlt, hunder⟩ := Finset.mem_filter.mp hu
    exact Finset.mem_filter.mpr ⟨hlt, ReflTransGen.head hchild hunder⟩
  · have hself := hsub (Finset.mem_filter.mpr ⟨Finset.mem_range.mpr hv, ReflTransGen.refl⟩)
    exact h.not_under_of_child hv hchild (Finset.mem_filter.mp hself).2

/-! ### Paths from the root -/

omit h in
/-- A path that does not start towards the root never turns. -/
theorem chain_child {l : List Nat} (hchain : (a :: l).IsChain (Adjacent count up))
    (hnodup : (a :: l).Nodup) (hup : up a ∉ l) : (a :: l).IsChain (Child up) := by
  induction l generalizing a with
  | nil => exact .singleton a
  | cons c l ih =>
      obtain ⟨hadj, hrest⟩ := List.isChain_cons_cons.mp hchain
      have hchild : Child up a c := by
        rcases hadj.2.2 with hchild | hchild
        · exact hchild
        · exact absurd (hchild.2 ▸ List.mem_cons_self) hup
      obtain ⟨hnot, hnodup'⟩ := List.nodup_cons.mp hnodup
      refine List.isChain_cons_cons.mpr ⟨hchild, ih hrest hnodup' ?_⟩
      rw [hchild.2]
      exact fun hmem => hnot (List.mem_cons_of_mem c hmem)

theorem path_child {l : List Nat} (hpath : Path (Adjacent count up) root l b) :
    l.IsChain (Child up) := by
  obtain ⟨hhead, -, hnodup, hchain⟩ := hpath
  cases l with
  | nil => exact absurd hhead (by simp)
  | cons a l =>
      obtain rfl : a = root := by simpa using hhead
      refine chain_child hchain hnodup ?_
      rw [h.up_root]
      exact (List.nodup_cons.mp hnodup).1

omit h in
theorem under_of_chain {l : List Nat} (hchain : (a :: l).IsChain (Child up))
    (hlast : (a :: l).getLast? = some b) : Under up a b := by
  induction l generalizing a with
  | nil =>
      obtain rfl : a = b := by simpa using hlast
      exact ReflTransGen.refl
  | cons c l ih =>
      obtain ⟨hchild, hrest⟩ := List.isChain_cons_cons.mp hchain
      exact ReflTransGen.head hchild (ih hrest (by rwa [List.getLast?_cons_cons] at hlast))

omit h in
theorem path_lt {l : List Nat} (hpath : Path (Adjacent count up) a l b) (ha : a < count) :
    ∀ v ∈ l, v < count := by
  have hhead := hpath.head
  have hchain := hpath.chain
  clear hpath
  induction l generalizing a with
  | nil => exact fun v hv => absurd hv List.not_mem_nil
  | cons c l ih =>
      obtain rfl : c = a := by simpa using hhead
      intro v hv
      rcases List.mem_cons.mp hv with rfl | hv
      · exact ha
      · cases l with
        | nil => exact absurd hv List.not_mem_nil
        | cons d l =>
            obtain ⟨hadj, hrest⟩ := List.isChain_cons_cons.mp hchain
            exact ih hadj.2.1 rfl hrest v hv

/-- The path to a node has the nodes above it. -/
theorem exists_path (hv : v < count) : ∃ l, Path (Adjacent count up) root l v ∧
    ∀ a, a ∈ l ↔ Under up a v := by
  obtain ⟨k, hk⟩ := h.below v hv
  induction hk with
  | top =>
      refine ⟨[root], ⟨rfl, rfl, List.nodup_singleton root, .singleton root⟩, fun a => ?_⟩
      rw [List.mem_singleton]
      refine ⟨fun heq => heq ▸ ReflTransGen.refl, fun hunder => ?_⟩
      rcases ReflTransGen.cases_tail hunder with heq | ⟨c, -, hchild⟩
      · exact heq.symm
      · exact absurd hchild (h.not_child_root c)
  | @load d v k _ hchild ih =>
      have hd : d < count := h.child_lt hchild hv
      obtain ⟨l, hpath, hmem⟩ := ih hd
      have hne : l ≠ [] := by
        rintro rfl
        exact absurd hpath.head (by simp)
      have hnot : v ∉ l := fun hin => h.not_under_of_child hd hchild ((hmem v).mp hin)
      refine ⟨l ++ [v], ⟨?_, List.getLast?_concat, ?_, ?_⟩, fun a => ?_⟩
      · rw [List.head?_append, hpath.head]
        rfl
      · exact List.nodup_append.mpr ⟨hpath.nodup, List.nodup_singleton v, fun a ha b hb heq =>
          hnot (List.mem_singleton.mp hb ▸ heq ▸ ha)⟩
      · refine List.isChain_append.mpr ⟨hpath.chain, .singleton v, fun a ha b hb => ?_⟩
        obtain rfl : d = a := by simpa [hpath.last] using ha
        obtain rfl : v = b := by simpa using hb
        exact ⟨hd, hv, Or.inl hchild⟩
      · rw [List.mem_append, List.mem_singleton, hmem]
        constructor
        · rintro (hunder | rfl)
          · exact hunder.tail hchild
          · exact ReflTransGen.refl
        · intro hunder
          rcases ReflTransGen.cases_tail hunder with heq | ⟨c, hac, hchild'⟩
          · exact Or.inr heq.symm
          · exact Or.inl ((hchild'.2.symm.trans hchild.2) ▸ hac)

end Rooted

end OpenRoad.ParentTree
