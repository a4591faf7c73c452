import OpenRoad.DriverPath
import OpenRoad.GrtPath
import Mathlib.Algebra.BigOperators.Group.Finset.Piecewise
import Mathlib.Data.Finset.Card

/-!
Steiner trees given by parent pointers. The pins come first; every node points to a Steiner node, the
root to itself, and a Steiner node has three neighbours. What an edge costs is summed over all nodes;
moving the two ends of one edge changes the part of the sum that the neighbours of the two show.
-/

namespace OpenRoad.Grt

open DriverPath

/-- The branches of a tree, the pins first: where each node is and which it points to. -/
structure Tree where
  deg : Nat
  branchCount : Nat
  n : Nat → Nat
  x : Nat → Int
  y : Nat → Int

namespace Tree

variable (tree : Tree)

def pos (v : Nat) : GridPoint := (tree.x v, tree.y v)

def steiners : List Nat := List.range' tree.deg (tree.branchCount - tree.deg)

/-- The first Steiner node that points to itself. -/
def root : Nat := (tree.steiners.find? fun i => decide (tree.n i = i)).getD 0

/-- An edge enters the neighbour table of a node. -/
def addNbr (nbr : Nat → List Nat) (v w : Nat) : Nat → List Nat :=
  Function.update nbr v (nbr v ++ [w])

/-- The neighbour table: first the edges from the pins, then those between Steiner nodes. -/
def nbr : Nat → List Nat :=
  tree.steiners.foldl
    (fun nbr i => if i = tree.root then nbr else addNbr (addNbr nbr i (tree.n i)) (tree.n i) i)
    ((List.range tree.deg).foldl (fun nbr i => addNbr nbr (tree.n i) i) fun _ => [])

/-- A node points to another. -/
def Points (root : Nat) (driver load : Nat) : Prop := load ≠ root ∧ tree.n load = driver

/-- The nodes that point to a node. -/
def children (v : Nat) : Finset Nat :=
  (Finset.range tree.branchCount).filter fun u => u ≠ v ∧ tree.n u = v

/-- A tree with one root: pins are leaves, and Steiner nodes have degree three. -/
structure Steiner (root : Nat) : Prop where
  root_ge : tree.deg ≤ root
  root_lt : root < tree.branchCount
  n_root : tree.n root = root
  n_ge : ∀ v < tree.branchCount, tree.deg ≤ tree.n v
  n_lt : ∀ v < tree.branchCount, tree.n v < tree.branchCount
  below : ∀ v < tree.branchCount, ∃ k, Below (tree.Points root) root v k
  degree : ∀ v, tree.deg ≤ v → v < tree.branchCount →
    (tree.children v).card + (if v = root then 0 else 1) = 3

variable {tree} {root v w : Nat}

theorem mem_steiners : v ∈ tree.steiners ↔ tree.deg ≤ v ∧ v < tree.branchCount := by
  unfold steiners
  rw [List.mem_range'_1]
  omega

theorem nodup_steiners : tree.steiners.Nodup := List.nodup_range' _ (by decide)

theorem mem_children : w ∈ tree.children v ↔ w < tree.branchCount ∧ w ≠ v ∧ tree.n w = v := by
  unfold children
  rw [Finset.mem_filter, Finset.mem_range]

/-- The paths to a node have one length. -/
theorem below_unique {k l : Nat} (hk : Below (tree.Points root) root v k)
    (hl : Below (tree.Points root) root v l) : k = l :=
  hk.unique (fun _ _ _ hd hd' => hd.2.symm.trans hd'.2) (fun _ hd => hd.1 rfl) hl

theorem below_n {k : Nat} (hv : v ≠ root) (hk : Below (tree.Points root) root (tree.n v) k) :
    Below (tree.Points root) root v (k + 1) := .load hk ⟨hv, rfl⟩

namespace Steiner

variable (h : tree.Steiner root)

include h

/-- Only the root points to itself. -/
theorem eq_root (hv : v < tree.branchCount) (hself : tree.n v = v) : v = root := by
  by_contra hne
  obtain ⟨k, hk⟩ := h.below v hv
  have hnext := below_n hne (hself.symm ▸ hk)
  have := below_unique hk hnext
  omega

/-- A node is not pointed to by the node it points to. -/
theorem n_n_ne (hv : v < tree.branchCount) (hne : v ≠ root) : tree.n (tree.n v) ≠ v := by
  intro heq
  obtain ⟨k, hk⟩ := h.below (tree.n v) (h.n_lt v hv)
  have hv' := below_n hne hk
  by_cases hroot : tree.n v = root
  · rw [hroot, h.n_root] at heq
    exact hne heq.symm
  · have hnext := below_n hroot (heq.symm ▸ hv')
    have := below_unique hk hnext
    omega

theorem n_ne (hv : v < tree.branchCount) (hne : v ≠ root) : tree.n v ≠ v :=
  fun hself => hne (h.eq_root hv hself)

theorem root_eq : tree.root = root := by
  have hex : ∃ i ∈ tree.steiners, decide (tree.n i = i) = true :=
    ⟨root, mem_steiners.mpr ⟨h.root_ge, h.root_lt⟩, decide_eq_true h.n_root⟩
  obtain ⟨i, hi⟩ := Option.isSome_iff_exists.mp (List.find?_isSome.mpr hex)
  have hself : tree.n i = i := by simpa using List.find?_some hi
  have hmem := mem_steiners.mp (List.mem_of_find?_eq_some hi)
  unfold Tree.root
  rw [hi]
  exact h.eq_root hmem.2 hself

end Steiner

/-! ### The neighbour table -/

theorem addNbr_perm (nbr : Nat → List Nat) (v w u : Nat) :
    (addNbr nbr v w u).Perm (nbr u ++ if u = v then [w] else []) := by
  unfold addNbr
  by_cases huv : u = v
  · subst huv
    rw [Function.update_self, if_pos rfl]
  · rw [Function.update_of_ne huv, if_neg huv, List.append_nil]

/-- The edges of some pins in the table. -/
theorem foldl_pins_perm (tree : Tree) (pins : List Nat) (nbr : Nat → List Nat) (u : Nat) :
    (pins.foldl (fun nbr i => addNbr nbr (tree.n i) i) nbr u).Perm
      (nbr u ++ pins.filter fun i => decide (tree.n i = u)) := by
  induction pins generalizing nbr with
  | nil => rw [List.foldl_nil, List.filter_nil, List.append_nil]
  | cons i pins ih =>
      rw [List.foldl_cons]
      refine (ih _).trans (((addNbr_perm nbr (tree.n i) i u).append_right _).trans ?_)
      by_cases hu : tree.n i = u
      · rw [if_pos hu.symm, List.filter_cons_of_pos (by simpa using hu), List.append_assoc]
        rfl
      · rw [if_neg (Ne.symm hu), List.filter_cons_of_neg (by simpa using hu), List.append_nil]

/-- The edges of some Steiner nodes in the table: at their own ends and at the others. -/
theorem foldl_steiners_perm (tree : Tree) (r : Nat) (steiners : List Nat) (nbr : Nat → List Nat)
    (u : Nat) :
    (steiners.foldl
      (fun nbr i => if i = r then nbr else addNbr (addNbr nbr i (tree.n i)) (tree.n i) i)
      nbr u).Perm
      (nbr u ++ ((steiners.filter fun i => decide (i ≠ r ∧ i = u)).map tree.n ++
        steiners.filter fun i => decide (i ≠ r ∧ tree.n i = u))) := by
  induction steiners generalizing nbr with
  | nil =>
      rw [List.foldl_nil, List.filter_nil, List.filter_nil, List.map_nil, List.append_nil,
        List.append_nil]
  | cons i steiners ih =>
      rw [List.foldl_cons]
      refine (ih _).trans ?_
      by_cases hi : i = r
      · rw [if_pos hi, List.filter_cons_of_neg (by simp [hi]),
          List.filter_cons_of_neg (by simp [hi])]
      · rw [if_neg hi]
        refine ((addNbr_perm _ (tree.n i) i u).append_right _).trans ?_
        refine (((addNbr_perm nbr i (tree.n i) u).append_right _).append_right _).trans ?_
        have hfirst : ((i :: steiners).filter fun j => decide (j ≠ r ∧ j = u)).map tree.n =
            (if u = i then [tree.n i] else []) ++
              (steiners.filter fun j => decide (j ≠ r ∧ j = u)).map tree.n := by
          by_cases hu : u = i
          · rw [if_pos hu, List.filter_cons_of_pos (by simp [hi, hu])]
            rfl
          · rw [if_neg hu, List.filter_cons_of_neg (by simp [Ne.symm hu])]
            rfl
        have hsecond : ((i :: steiners).filter fun j => decide (j ≠ r ∧ tree.n j = u)) =
            (if u = tree.n i then [i] else []) ++
              steiners.filter fun j => decide (j ≠ r ∧ tree.n j = u) := by
          by_cases hu : u = tree.n i
          · rw [if_pos hu, List.filter_cons_of_pos (by simp [hi, hu])]
            rfl
          · rw [if_neg hu, List.filter_cons_of_neg (by simp [Ne.symm hu])]
            rfl
        rw [hfirst, hsecond]
        refine List.perm_iff_count.mpr fun a => ?_
        simp only [List.count_append]
        omega

namespace Steiner

variable (h : tree.Steiner root)

include h

/-- A node of the tree has its children and, but for the root, its parent in the table. -/
theorem nbr_perm (hv : tree.deg ≤ v) (hlt : v < tree.branchCount) :
    (tree.nbr v).Perm ((tree.children v).toList ++ if v = root then [] else [tree.n v]) := by
  have hpins := foldl_pins_perm tree (List.range tree.deg) (fun _ => []) v
  have hall := foldl_steiners_perm tree tree.root tree.steiners
    ((List.range tree.deg).foldl (fun nbr i => addNbr nbr (tree.n i) i) fun _ => []) v
  refine hall.trans ((hpins.append_right _).trans ?_)
  rw [h.root_eq, List.nil_append]
  have hown : ((tree.steiners.filter fun i => decide (i ≠ root ∧ i = v)).map tree.n) =
      if v = root then [] else [tree.n v] := by
    split_ifs with hroot
    · rw [List.filter_eq_nil_iff.mpr fun i _ => by simp [hroot], List.map_nil]
    · have hfilter : (tree.steiners.filter fun i => decide (i ≠ root ∧ i = v)) = [v] := by
        have hsame : (fun i => decide (i ≠ root ∧ i = v)) = fun i => decide (i = v) := by
          funext i
          by_cases hi : i = v
          · simp [hi, hroot]
          · simp [hi]
        rw [hsame, List.filter_eq, List.count_eq_one_of_mem nodup_steiners
          (mem_steiners.mpr ⟨hv, hlt⟩)]
        rfl
      rw [hfilter]
      rfl
  have hchildren : (((List.range tree.deg).filter fun i => decide (tree.n i = v)) ++
      tree.steiners.filter fun i => decide (i ≠ root ∧ tree.n i = v)).Perm
        (tree.children v).toList := by
    refine (List.perm_ext_iff_of_nodup ?_ (Finset.nodup_toList _)).mpr fun i => ?_
    · refine List.nodup_append.mpr ⟨List.nodup_range.filter _, nodup_steiners.filter _, ?_⟩
      intro i hi j hj heq
      have hi' := List.mem_range.mp (List.mem_filter.mp hi).1
      have hj' := (mem_steiners.mp (List.mem_filter.mp hj).1).1
      omega
    · rw [List.mem_append, List.mem_filter, List.mem_filter, List.mem_range, mem_steiners,
        Finset.mem_toList, mem_children, decide_eq_true_eq, decide_eq_true_eq]
      have hroot := h.n_root
      have hself : tree.n i = i → i < tree.branchCount → i = root := fun hi hlt => h.eq_root hlt hi
      have hroot_ge := h.root_ge
      constructor
      · rintro (⟨hi, hn⟩ | ⟨⟨hge, hi⟩, hne, hn⟩)
        · exact ⟨by omega, by omega, hn⟩
        · refine ⟨hi, fun heq => hne (hself (hn.trans heq.symm) hi), hn⟩
      · rintro ⟨hi, hne, hn⟩
        rcases Nat.lt_or_ge i tree.deg with hdeg | hdeg
        · exact Or.inl ⟨hdeg, hn⟩
        · refine Or.inr ⟨⟨hdeg, hi⟩, fun hr => hne ?_, hn⟩
          rw [hr] at hn ⊢
          exact hroot.symm.trans hn
  rw [hown]
  refine List.Perm.trans ?_ (hchildren.append_right _)
  refine List.perm_iff_count.mpr fun a => ?_
  simp only [List.count_append]
  omega

end Steiner

/-! ### Sums over the edges -/

section Total

variable (f : GridPoint → GridPoint → Nat)

/-- What all edges cost together. -/
def total (tree : Tree) : Nat :=
  ∑ v ∈ Finset.range tree.branchCount, f (tree.pos v) (tree.pos (tree.n v))

/-- What the edges of a node cost, but for the one to `w`. -/
def around (tree : Tree) (v w : Nat) : Nat :=
  (((tree.nbr v).filter fun u => decide (u ≠ w)).map fun u => f (tree.pos v) (tree.pos u)).sum

/-- What the edges cost that do not touch two nodes. -/
def apart (tree : Tree) (c p : Nat) : Nat :=
  ∑ v ∈ (Finset.range tree.branchCount).filter fun v =>
    v ≠ c ∧ v ≠ p ∧ tree.n v ≠ c ∧ tree.n v ≠ p, f (tree.pos v) (tree.pos (tree.n v))

variable {f} (hsymm : ∀ p q, f p q = f q p) (hself : ∀ p, f p p = 0)

include hsymm

theorem Steiner.around_eq (h : tree.Steiner root) (hv : tree.deg ≤ v) (hlt : v < tree.branchCount)
    (w : Nat) : around f tree v w =
      (∑ u ∈ (tree.children v).erase w, f (tree.pos u) (tree.pos v)) +
        if v = root ∨ tree.n v = w then 0 else f (tree.pos v) (tree.pos (tree.n v)) := by
  have hfilter : ((tree.children v).toList.filter fun u => decide (u ≠ w)).Perm
      ((tree.children v).erase w).toList := by
    refine (List.perm_ext_iff_of_nodup ((Finset.nodup_toList _).filter _)
      (Finset.nodup_toList _)).mpr fun u => ?_
    rw [List.mem_filter, Finset.mem_toList, Finset.mem_toList, Finset.mem_erase, decide_eq_true_eq,
      and_comm]
  have hperm := ((h.nbr_perm hv hlt).filter fun u => decide (u ≠ w)).map
    fun u => f (tree.pos v) (tree.pos u)
  unfold around
  rw [hperm.sum_eq, List.filter_append, List.map_append, List.sum_append,
    (hfilter.map _).sum_eq, Finset.sum_map_toList]
  congr 1
  · exact Finset.sum_congr rfl fun u _ => hsymm _ _
  · by_cases hroot : v = root
    · rw [if_pos hroot, if_pos (Or.inl hroot)]
      rfl
    · rw [if_neg hroot]
      by_cases hw : tree.n v = w
      · rw [if_pos (Or.inr hw), List.filter_cons_of_neg (by simpa using hw)]
        rfl
      · rw [if_neg (by tauto), List.filter_cons_of_pos (by simpa using hw)]
        rfl

include hself

/-- The edges apart from a node and its parent, the edge between the two, and the others at each. -/
theorem Steiner.total_eq (h : tree.Steiner root) {c : Nat} (hc : tree.deg ≤ c)
    (hlt : c < tree.branchCount) (hroot : c ≠ root) :
    total f tree = f (tree.pos c) (tree.pos (tree.n c)) + around f tree c (tree.n c) +
      around f tree (tree.n c) c + apart f tree c (tree.n c) := by
  have hne := h.n_ne hlt hroot
  have hback := h.n_n_ne hlt hroot
  set p := tree.n c with hp
  have hplt : p < tree.branchCount := h.n_lt c hlt
  let g := fun v => f (tree.pos v) (tree.pos (tree.n v))
  have hg : ∀ v w, tree.n v = w → f (tree.pos v) (tree.pos w) = g v := fun v w hw => hw ▸ rfl
  have hchildren : p ∉ tree.children c := fun hmem => hback (mem_children.mp hmem).2.2
  have hsplit : ∀ v ∈ Finset.range tree.branchCount, g v =
      (if v = c then g v else 0) + (if v = p then g v else 0) +
        (if v ∈ tree.children c then g v else 0) +
        (if v ∈ (tree.children p).erase c then g v else 0) +
        if v ≠ c ∧ v ≠ p ∧ tree.n v ≠ c ∧ tree.n v ≠ p then g v else 0 := by
    intro v hv
    have hv' := Finset.mem_range.mp hv
    simp only [Finset.mem_erase, mem_children]
    by_cases h₁ : v = c
    · subst h₁
      simp [Ne.symm hne]
    · by_cases h₂ : v = p
      · subst h₂
        simp [h₁, hback]
      · by_cases h₃ : tree.n v = c
        · simp [h₁, h₂, h₃, hv', Ne.symm hne]
        · by_cases h₄ : tree.n v = p
          · simp [h₁, h₂, h₄, hv', hne]
          · simp [h₁, h₂, h₃, h₄, hv']
  have hsubset : ∀ v, tree.children v ⊆ Finset.range tree.branchCount :=
    fun v => Finset.filter_subset _ _
  have htotal : total f tree = g c + g p + ∑ u ∈ tree.children c, g u +
      ∑ u ∈ (tree.children p).erase c, g u + apart f tree c p := by
    unfold total apart
    rw [Finset.sum_congr rfl hsplit, Finset.sum_add_distrib, Finset.sum_add_distrib,
      Finset.sum_add_distrib, Finset.sum_add_distrib, Finset.sum_ite_eq', Finset.sum_ite_eq',
      if_pos (Finset.mem_range.mpr hlt), if_pos (Finset.mem_range.mpr hplt), Finset.sum_ite_mem,
      Finset.sum_ite_mem, Finset.inter_eq_right.mpr (hsubset c),
      Finset.inter_eq_right.mpr ((Finset.erase_subset _ _).trans (hsubset p)), Finset.sum_filter]
  have hc' : around f tree c p = ∑ u ∈ tree.children c, g u := by
    rw [h.around_eq hsymm hc hlt, if_pos (Or.inr hp.symm), Nat.add_zero,
      Finset.erase_eq_of_notMem hchildren]
    exact Finset.sum_congr rfl fun u hu => hg u c (mem_children.mp hu).2.2
  have hp' : around f tree p c = ∑ u ∈ (tree.children p).erase c, g u + g p := by
    rw [h.around_eq hsymm (h.n_ge c hlt) hplt]
    congr 1
    · exact Finset.sum_congr rfl fun u hu =>
        hg u p (mem_children.mp (Finset.mem_of_mem_erase hu)).2.2
    · by_cases hr : p = root
      · rw [if_pos (Or.inl hr)]
        show 0 = f (tree.pos p) (tree.pos (tree.n p))
        rw [hr, h.n_root, hself]
      · rw [if_neg (not_or.mpr ⟨hr, hback⟩)]
  rw [htotal, hc', hp', hg c p hp.symm]
  omega

end Total

end Tree

end OpenRoad.Grt
