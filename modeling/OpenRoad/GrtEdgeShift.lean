import OpenRoad.GrtSteinerTree
import Mathlib.Data.NNRat.Floor
import Mathlib.Logic.Relation

/-!
Edge shifting. A horizontal or vertical edge between two Steiner nodes is moved to the place where it and
its neighbours cost least, the best one first, until no move helps. The cost of a bent edge is worked
out from its sorted corners; for a falling edge these are not the corners of its two L shapes.
-/

namespace OpenRoad.Grt

/-! ### Costs -/

/-- `cost += est_usage` for an `int`. -/
def addUsage (cost : Nat) (usage : ℚ≥0) : Nat := ⌊(cost : ℚ≥0) + usage⌋₊

def legCost (estUsage : GridEdge → ℚ≥0) (gridEdges : List GridEdge) : Nat :=
  gridEdges.foldl (fun cost gridEdge => addUsage cost (estUsage gridEdge)) 0

/-- The cheaper of `cost1` and `cost2`, between the sorted corners of two points. -/
def cornerCost (estUsage : GridEdge → ℚ≥0) (p q : GridPoint) : Nat :=
  let smallX := min p.1 q.1
  let bigX := max p.1 q.1
  let smallY := min p.2 q.2
  let bigY := max p.2 q.2
  min (legCost estUsage (hSpan smallY smallX bigX ++ vSpan bigX smallY bigY))
    (legCost estUsage (hSpan bigY smallX bigX ++ vSpan smallX smallY bigY))

/-- What a connection costs: the usage along it when it is straight, along the cheaper of its two L
shapes otherwise, every usage rounded down. -/
def estimate (estUsage : GridEdge → ℚ≥0) (p q : GridPoint) : Nat :=
  let along := fun gridEdges : List GridEdge =>
    (gridEdges.map fun gridEdge => ⌊estUsage gridEdge⌋₊).sum
  if p.1 = q.1 then along (vSpan p.1 (min p.2 q.2) (max p.2 q.2))
  else if p.2 = q.2 then along (hSpan p.2 (min p.1 q.1) (max p.1 q.1))
  else
    min (along (hSpan p.2 (min p.1 q.1) (max p.1 q.1) ++ vSpan q.1 (min p.2 q.2) (max p.2 q.2)))
      (along (vSpan p.1 (min p.2 q.2) (max p.2 q.2) ++ hSpan q.2 (min p.1 q.1) (max p.1 q.1)))

/-- One end is to the left of the other, and above it. -/
def Falling (p q : GridPoint) : Prop := p.1 < q.1 ∧ q.2 < p.2 ∨ q.1 < p.1 ∧ p.2 < q.2

instance (p q : GridPoint) : Decidable (Falling p q) := inferInstanceAs (Decidable (_ ∨ _))

/-! ### Shifts -/

/-- Where a pair of nodes is moved: the row of a horizontal edge, or the column of a vertical one. -/
structure EdgeShift where
  direction : EdgeDirection
  n1 : Nat
  n2 : Nat
  place : Int
  deriving DecidableEq, Repr

namespace Tree

variable (estUsage : GridEdge → ℚ≥0) (tree : Tree)

/-- The edges between Steiner nodes that are straight, with the lower end first. -/
def straightPairs : List (Nat × Nat) :=
  tree.steiners.filterMap fun i =>
    let n := tree.n i
    if tree.x i = tree.x n then
      if tree.y i < tree.y n then some (i, n)
      else if tree.y i > tree.y n then some (n, i)
      else none
    else if tree.y i = tree.y n then
      if tree.x i < tree.x n then some (i, n) else some (n, i)
    else none

def direction (n1 n2 : Nat) : EdgeDirection :=
  if tree.y n1 = tree.y n2 then .horizontal else .vertical

/-- What a shift changes of a node. -/
def coord (direction : EdgeDirection) (v : Nat) : Int :=
  match direction with
  | .horizontal => tree.y v
  | .vertical => tree.x v

/-- A node in another row or column. -/
def placed (direction : EdgeDirection) (v : Nat) (j : Int) : GridPoint :=
  match direction with
  | .horizontal => (tree.x v, j)
  | .vertical => (j, tree.y v)

/-- The edge of the pair in another row or column. -/
def pairSpan (direction : EdgeDirection) (n1 n2 : Nat) (j : Int) : List GridEdge :=
  match direction with
  | .horizontal => hSpan j (tree.x n1) (tree.x n2)
  | .vertical => vSpan j (tree.y n1) (tree.y n2)

/-- The costs of the edges at one of the two nodes, without the edge between them. -/
def sideCost (direction : EdgeDirection) (v w : Nat) (j : Int) : Nat :=
  (((tree.nbr v).filter fun n3 => decide (n3 ≠ w)).map fun n3 =>
    cornerCost estUsage (tree.placed direction v j) (tree.pos n3)).sum

/-- `costH[j]`, or `costV[j]`. -/
def shiftCost (direction : EdgeDirection) (n1 n2 : Nat) (j : Int) : Nat :=
  legCost estUsage (tree.pairSpan direction n1 n2 j) + tree.sideCost estUsage direction n1 n2 j +
    tree.sideCost estUsage direction n2 n1 j

/-- The least and the greatest coordinate of a node and its neighbours. -/
def shiftRange (direction : EdgeDirection) (v : Nat) : Int × Int :=
  (tree.nbr v).foldl
    (fun range n3 =>
      if tree.coord direction n3 > range.2 then (range.1, tree.coord direction n3)
      else if tree.coord direction n3 < range.1 then (tree.coord direction n3, range.2)
      else range)
    (tree.coord direction v, tree.coord direction v)

/-- The best place for a pair, with its cost; the present one where none costs less than the infinity
of the router. -/
def bestPlace (direction : EdgeDirection) (n1 n2 : Nat) (first last : Int) : Nat × Int :=
  (span first (last + 1)).foldl
    (fun best j =>
      if tree.shiftCost estUsage direction n1 n2 j < best.1 then
        (tree.shiftCost estUsage direction n1 n2 j, j)
      else best)
    (1000000000, tree.coord direction n1)

/-- The benefit of the best place for a pair, where that is another one. -/
def candidate (n1 n2 : Nat) : Option (Int × EdgeShift) :=
  let direction := tree.direction n1 n2
  let range1 := tree.shiftRange direction n1
  let range2 := tree.shiftRange direction n2
  let first := max range1.1 range2.1
  let last := min range1.2 range2.2
  if first < last then
    let best := tree.bestPlace estUsage direction n1 n2 first last
    if best.2 ≠ tree.coord direction n1 then
      some (tree.shiftCost estUsage direction n1 n2 (tree.coord direction n1) - best.1,
        { direction := direction, n1 := n1, n2 := n2, place := best.2 })
    else none
  else none

/-- The shift with the largest benefit, if it is one. -/
def bestShift : Option EdgeShift :=
  let best := tree.straightPairs.foldl
    (fun (best : Int × Option EdgeShift) pair =>
      match tree.candidate estUsage pair.1 pair.2 with
      | some (benefit, shift) => if benefit > best.1 then (benefit, some shift) else best
      | none => best)
    (-1, none)
  if best.1 > 0 then best.2 else none

/-- Move the two nodes. -/
def shift (s : EdgeShift) : Tree :=
  match s.direction with
  | .horizontal =>
      { tree with y := Function.update (Function.update tree.y s.n1 s.place) s.n2 s.place }
  | .vertical =>
      { tree with x := Function.update (Function.update tree.x s.n1 s.place) s.n2 s.place }

/-- One turn of the loop. -/
def nextShift : Option Tree := (tree.bestShift estUsage).map tree.shift

end Tree

/-! ### What the costs are -/

section Costs

variable (estUsage : GridEdge → ℚ≥0)

theorem addUsage_eq (cost : Nat) (usage : ℚ≥0) : addUsage cost usage = cost + ⌊usage⌋₊ := by
  unfold addUsage
  rw [add_comm, Nat.floor_add_natCast (zero_le), Nat.add_comm]

theorem legCost_eq (gridEdges : List GridEdge) : legCost estUsage gridEdges =
    (gridEdges.map fun gridEdge => ⌊estUsage gridEdge⌋₊).sum := by
  have hfold : ∀ (gridEdges : List GridEdge) (cost : Nat),
      gridEdges.foldl (fun cost gridEdge => addUsage cost (estUsage gridEdge)) cost =
        cost + (gridEdges.map fun gridEdge => ⌊estUsage gridEdge⌋₊).sum := by
    intro gridEdges
    induction gridEdges with
    | nil => exact fun cost => (Nat.add_zero cost).symm
    | cons gridEdge gridEdges ih =>
        intro cost
        rw [List.foldl_cons, ih, addUsage_eq, List.map_cons, List.sum_cons, Nat.add_assoc]
  exact (hfold gridEdges 0).trans (Nat.zero_add _)

theorem span_self (a : Int) : span a a = [] := by
  unfold span
  rw [Int.sub_self]
  rfl

theorem hSpan_self (y a : Int) : hSpan y a a = [] := by
  rw [hSpan, span_self, List.map_nil]

theorem vSpan_self (x a : Int) : vSpan x a a = [] := by
  rw [vSpan, span_self, List.map_nil]

theorem cornerCost_comm (p q : GridPoint) : cornerCost estUsage p q = cornerCost estUsage q p := by
  unfold cornerCost
  rw [min_comm p.1, max_comm p.1, min_comm p.2, max_comm p.2]

theorem cornerCost_self (p : GridPoint) : cornerCost estUsage p p = 0 := by
  unfold cornerCost
  simp only [min_self, max_self, hSpan_self, vSpan_self]
  rfl

/-- Between the ends of an edge that is not falling the corners are those of its L shapes. -/
theorem cornerCost_eq_estimate {p q : GridPoint} (h : ¬Falling p q) :
    cornerCost estUsage p q = estimate estUsage p q := by
  unfold Falling at h
  push Not at h
  unfold cornerCost estimate
  dsimp only
  rw [legCost_eq, legCost_eq]
  by_cases hx : p.1 = q.1
  · rw [if_pos hx, ← hx, min_self, max_self]
    simp only [hSpan_self, List.nil_append, min_self]
  · rw [if_neg hx]
    by_cases hy : p.2 = q.2
    · rw [if_pos hy, ← hy, min_self, max_self]
      simp only [vSpan_self, List.append_nil, min_self]
    · rw [if_neg hy]
      simp only [List.map_append, List.sum_append]
      rcases lt_or_gt_of_ne hx with hlt | hlt
      · have hrise : p.2 < q.2 := lt_of_le_of_ne (h.1 hlt) hy
        rw [min_eq_left hlt.le, max_eq_right hlt.le, min_eq_left hrise.le, max_eq_right hrise.le]
        congr 1
        exact Nat.add_comm _ _
      · have hrise : q.2 < p.2 := lt_of_le_of_ne (h.2 hlt) (Ne.symm hy)
        rw [min_eq_right hlt.le, max_eq_left hlt.le, min_eq_right hrise.le, max_eq_left hrise.le,
          min_comm]
        congr 1
        exact Nat.add_comm _ _

theorem estimate_comm (p q : GridPoint) : estimate estUsage p q = estimate estUsage q p := by
  unfold estimate
  dsimp only
  by_cases hx : p.1 = q.1
  · rw [if_pos hx, if_pos hx.symm, hx, min_comm p.2, max_comm p.2]
  · rw [if_neg hx, if_neg (Ne.symm hx)]
    by_cases hy : p.2 = q.2
    · rw [if_pos hy, if_pos hy.symm, hy, min_comm p.1, max_comm p.1]
    · rw [if_neg hy, if_neg (Ne.symm hy), min_comm p.1, max_comm p.1, min_comm p.2, max_comm p.2,
        min_comm]
      simp only [List.map_append, List.sum_append]
      congr 1
      · exact Nat.add_comm _ _
      · exact Nat.add_comm _ _

theorem estimate_self (p : GridPoint) : estimate estUsage p p = 0 := by
  unfold estimate
  dsimp only
  rw [if_pos rfl, min_self, max_self, vSpan_self]
  rfl

end Costs

/-! ### One shift -/

namespace Tree

variable {estUsage : GridEdge → ℚ≥0} {tree : Tree} {root : Nat}

@[simp] theorem shift_n (s : EdgeShift) : (tree.shift s).n = tree.n := by
  unfold shift
  cases s.direction <;> rfl

@[simp] theorem shift_deg (s : EdgeShift) : (tree.shift s).deg = tree.deg := by
  unfold shift
  cases s.direction <;> rfl

@[simp] theorem shift_branchCount (s : EdgeShift) :
    (tree.shift s).branchCount = tree.branchCount := by
  unfold shift
  cases s.direction <;> rfl

/-- The tables depend on the pointers only. -/
theorem nbr_congr {tree' : Tree} (hdeg : tree'.deg = tree.deg)
    (hcount : tree'.branchCount = tree.branchCount) (hn : tree'.n = tree.n) :
    tree'.nbr = tree.nbr := by
  unfold nbr Tree.root steiners
  rw [hdeg, hcount, hn]

theorem Steiner.congr {tree' : Tree} (h : tree.Steiner root) (hdeg : tree'.deg = tree.deg)
    (hcount : tree'.branchCount = tree.branchCount) (hn : tree'.n = tree.n) :
    tree'.Steiner root := by
  obtain ⟨deg, branchCount, n, x, y⟩ := tree
  obtain ⟨deg', branchCount', n', x', y'⟩ := tree'
  cases hdeg
  cases hcount
  cases hn
  exact ⟨h.root_ge, h.root_lt, h.n_root, h.n_ge, h.n_lt, h.below, h.degree⟩

theorem Steiner.shift (h : tree.Steiner root) (s : EdgeShift) : (tree.shift s).Steiner root :=
  h.congr (shift_deg s) (shift_branchCount s) (shift_n s)

theorem pos_shift (s : EdgeShift) (v : Nat) : (tree.shift s).pos v =
    if v = s.n1 ∨ v = s.n2 then tree.placed s.direction v s.place else tree.pos v := by
  unfold shift pos placed
  cases s.direction with
  | horizontal =>
      by_cases h₂ : v = s.n2
      · simp [h₂]
      · by_cases h₁ : v = s.n1
        · simp [h₁, Function.update_of_ne (h₁ ▸ h₂)]
        · simp [h₁, h₂]
  | vertical =>
      by_cases h₂ : v = s.n2
      · simp [h₂]
      · by_cases h₁ : v = s.n1
        · simp [h₁, Function.update_of_ne (h₁ ▸ h₂)]
        · simp [h₁, h₂]

/-- A pair of Steiner nodes that is joined by a straight edge. -/
structure Straight (tree : Tree) (n1 n2 : Nat) : Prop where
  child : ∃ i, tree.deg ≤ i ∧ i < tree.branchCount ∧
    ((n1, n2) = (i, tree.n i) ∨ (n1, n2) = (tree.n i, i))
  aligned : tree.y n1 = tree.y n2 ∧ tree.x n1 < tree.x n2 ∨
    tree.y n1 ≠ tree.y n2 ∧ tree.x n1 = tree.x n2 ∧ tree.y n1 < tree.y n2

theorem straight_of_mem {pair : Nat × Nat} (hpair : pair ∈ tree.straightPairs) :
    tree.Straight pair.1 pair.2 := by
  obtain ⟨i, hi, hsome⟩ := List.mem_filterMap.mp hpair
  obtain ⟨hge, hlt⟩ := mem_steiners.mp hi
  dsimp only at hsome
  split_ifs at hsome with hx hy hy' hy hx'
  · cases hsome
    exact ⟨⟨i, hge, hlt, Or.inl rfl⟩, Or.inr ⟨hy.ne, hx, hy⟩⟩
  · cases hsome
    exact ⟨⟨i, hge, hlt, Or.inr rfl⟩, Or.inr ⟨hy'.ne, hx.symm, hy'⟩⟩
  · cases hsome
    exact ⟨⟨i, hge, hlt, Or.inl rfl⟩, Or.inl ⟨hy, hx'⟩⟩
  · cases hsome
    exact ⟨⟨i, hge, hlt, Or.inr rfl⟩, Or.inl ⟨hy.symm, lt_of_le_of_ne (not_lt.mp hx') (Ne.symm hx)⟩⟩

/-- What the edges at a node cost when it is in another row or column, without the one to `w`. -/
def sideSum (f : GridPoint → GridPoint → Nat) (tree : Tree) (direction : EdgeDirection) (v w : Nat)
    (j : Int) : Nat :=
  (((tree.nbr v).filter fun u => decide (u ≠ w)).map fun u =>
    f (tree.placed direction v j) (tree.pos u)).sum

/-- What the edges that a shift touches cost afterwards. -/
def touched (f : GridPoint → GridPoint → Nat) (tree : Tree) (s : EdgeShift) : Nat :=
  f (tree.placed s.direction s.n1 s.place) (tree.placed s.direction s.n2 s.place) +
    sideSum f tree s.direction s.n1 s.n2 s.place + sideSum f tree s.direction s.n2 s.n1 s.place

theorem not_mem_nbr_self (h : tree.Steiner root) {v : Nat} (hv : tree.deg ≤ v)
    (hlt : v < tree.branchCount) : v ∉ tree.nbr v := by
  intro hmem
  rcases List.mem_append.mp ((h.nbr_perm hv hlt).mem_iff.mp hmem) with hchild | hparent
  · exact (mem_children.mp (Finset.mem_toList.mp hchild)).2.1 rfl
  · split_ifs at hparent with hroot
    · exact absurd hparent List.not_mem_nil
    · exact h.n_ne hlt hroot (List.mem_singleton.mp hparent).symm

/-- The two nodes of a straight pair are a node and its parent, either way round. -/
theorem Straight.exists_child (h : tree.Steiner root) {n1 n2 : Nat} (hpair : tree.Straight n1 n2) :
    n1 ≠ n2 ∧ ∃ c, tree.deg ≤ c ∧ c < tree.branchCount ∧ c ≠ root ∧
      ((n1, n2) = (c, tree.n c) ∨ (n1, n2) = (tree.n c, c)) := by
  have hne : n1 ≠ n2 := by
    rintro rfl
    rcases hpair.aligned with ⟨-, hlt⟩ | ⟨-, -, hlt⟩
    · exact lt_irrefl _ hlt
    · exact lt_irrefl _ hlt
  obtain ⟨c, hge, hlt, hcases⟩ := hpair.child
  refine ⟨hne, c, hge, hlt, ?_, hcases⟩
  rintro rfl
  rcases hcases with heq | heq
  · exact hne ((Prod.mk.inj heq).1.trans (h.n_root.symm.trans (Prod.mk.inj heq).2.symm))
  · exact hne ((Prod.mk.inj heq).1.trans (h.n_root.trans (Prod.mk.inj heq).2.symm))

theorem apart_comm (f : GridPoint → GridPoint → Nat) (tree : Tree) (c p : Nat) :
    apart f tree c p = apart f tree p c := by
  unfold apart
  congr 1
  ext v
  simp only [Finset.mem_filter]
  tauto

section Shifted

variable {f : GridPoint → GridPoint → Nat} (hsymm : ∀ p q, f p q = f q p) (hself : ∀ p, f p p = 0)

/-- What does not touch the two nodes costs what it did. -/
theorem apart_shift (s : EdgeShift) :
    apart f (tree.shift s) s.n1 s.n2 = apart f tree s.n1 s.n2 := by
  unfold apart
  rw [shift_branchCount, shift_n]
  refine Finset.sum_congr rfl fun v hv => ?_
  obtain ⟨-, h₁, h₂, h₃, h₄⟩ := Finset.mem_filter.mp hv
  rw [pos_shift, pos_shift, if_neg (not_or.mpr ⟨h₁, h₂⟩), if_neg (not_or.mpr ⟨h₃, h₄⟩)]

theorem around_shift (h : tree.Steiner root) (s : EdgeShift) {v w : Nat} (hv : tree.deg ≤ v)
    (hlt : v < tree.branchCount) (hends : v = s.n1 ∧ w = s.n2 ∨ v = s.n2 ∧ w = s.n1) :
    around f (tree.shift s) v w = sideSum f tree s.direction v w s.place := by
  unfold around sideSum
  rw [nbr_congr (shift_deg s) (shift_branchCount s) (shift_n s)]
  congr 1
  refine List.map_congr_left fun u hu => ?_
  obtain ⟨hmem, hne⟩ := List.mem_filter.mp hu
  have huw : u ≠ w := of_decide_eq_true hne
  have huv : u ≠ v := fun heq => not_mem_nbr_self h hv hlt (heq ▸ hmem)
  rw [pos_shift, pos_shift, if_pos (by omega), if_neg (by omega)]

include hsymm hself

/-- The cost of the whole tree after a shift. -/
theorem total_shift (h : tree.Steiner root) {s : EdgeShift} (hpair : tree.Straight s.n1 s.n2) :
    total f (tree.shift s) = touched f tree s + apart f tree s.n1 s.n2 := by
  obtain ⟨hne, c, hge, hlt, hroot, hcases⟩ := hpair.exists_child h
  have hp := h.n_ge c hlt
  have hplt := h.n_lt c hlt
  have htotal := (h.shift s).total_eq hsymm hself (c := c) (by rwa [shift_deg])
    (by rwa [shift_branchCount]) hroot
  have hpos₁ : (tree.shift s).pos s.n1 = tree.placed s.direction s.n1 s.place := by
    rw [pos_shift, if_pos (Or.inl rfl)]
  have hpos₂ : (tree.shift s).pos s.n2 = tree.placed s.direction s.n2 s.place := by
    rw [pos_shift, if_pos (Or.inr rfl)]
  rw [htotal, shift_n]
  unfold touched
  rw [← apart_shift]
  rcases hcases with heq | heq
  · obtain ⟨h₁, h₂⟩ := Prod.mk.inj heq
    rw [around_shift h s hge hlt (Or.inl ⟨h₁.symm, h₂.symm⟩),
      around_shift h s hp hplt (Or.inr ⟨h₂.symm, h₁.symm⟩), ← h₂, ← h₁, hpos₁, hpos₂]
  · obtain ⟨h₁, h₂⟩ := Prod.mk.inj heq
    rw [around_shift h s hge hlt (Or.inr ⟨h₂.symm, h₁.symm⟩),
      around_shift h s hp hplt (Or.inl ⟨h₁.symm, h₂.symm⟩), ← h₁, ← h₂, hpos₁, hpos₂,
      apart_comm f _ s.n2 s.n1, hsymm]
    omega

end Shifted

/-- A shift as the loop looks for it: its pair is straight, and it is in the direction of the pair. -/
structure Shiftable (tree : Tree) (s : EdgeShift) : Prop where
  pair : tree.Straight s.n1 s.n2
  direction : s.direction = tree.direction s.n1 s.n2

/-- The pair where it is. -/
def stay (tree : Tree) (s : EdgeShift) : EdgeShift :=
  { s with place := tree.coord s.direction s.n1 }

theorem Shiftable.stay {s : EdgeShift} (h : tree.Shiftable s) : tree.Shiftable (tree.stay s) :=
  ⟨h.pair, h.direction⟩

/-- The pair and the row or column it is in. -/
theorem Shiftable.cases {s : EdgeShift} (h : tree.Shiftable s) :
    s.direction = .horizontal ∧ tree.y s.n1 = tree.y s.n2 ∧ tree.x s.n1 < tree.x s.n2 ∨
      s.direction = .vertical ∧ tree.x s.n1 = tree.x s.n2 ∧ tree.y s.n1 < tree.y s.n2 := by
  rcases h.pair.aligned with ⟨hy, hx⟩ | ⟨hne, hx, hy⟩
  · exact Or.inl ⟨h.direction.trans (if_pos hy), hy, hx⟩
  · exact Or.inr ⟨h.direction.trans (if_neg hne), hx, hy⟩

theorem pos_shift_stay {s : EdgeShift} (h : tree.Shiftable s) (v : Nat) :
    (tree.shift (tree.stay s)).pos v = tree.pos v := by
  rw [pos_shift]
  split_ifs with hv
  · unfold Tree.stay placed coord pos
    dsimp only at hv ⊢
    rcases h.cases with ⟨hdir, hy, -⟩ | ⟨hdir, hx, -⟩
    · rw [hdir]
      rcases hv with rfl | rfl
      · rfl
      · exact Prod.ext rfl hy
    · rw [hdir]
      rcases hv with rfl | rfl
      · rfl
      · exact Prod.ext hx rfl
  · rfl

/-- The cost of the tree as it is. -/
theorem total_stay {f : GridPoint → GridPoint → Nat} (hsymm : ∀ p q, f p q = f q p)
    (hself : ∀ p, f p p = 0) (h : tree.Steiner root) {s : EdgeShift} (hs : tree.Shiftable s) :
    total f tree = touched f tree (tree.stay s) + apart f tree s.n1 s.n2 := by
  refine Eq.trans ?_ (total_shift hsymm hself h (s := tree.stay s) hs.pair)
  unfold total
  rw [shift_branchCount, shift_n]
  exact Finset.sum_congr rfl fun v _ => by rw [pos_shift_stay hs, pos_shift_stay hs]

theorem cornerCost_of_aligned (estUsage : GridEdge → ℚ≥0) {s : EdgeShift} (h : tree.Shiftable s) :
    cornerCost estUsage (tree.placed s.direction s.n1 s.place)
        (tree.placed s.direction s.n2 s.place) =
      legCost estUsage (tree.pairSpan s.direction s.n1 s.n2 s.place) := by
  unfold cornerCost placed pairSpan
  rcases h.cases with ⟨hdir, -, hx⟩ | ⟨hdir, -, hy⟩
  · rw [hdir]
    simp only [min_self, max_self, vSpan_self, List.append_nil, min_eq_left hx.le,
      max_eq_right hx.le]
  · rw [hdir]
    simp only [min_self, max_self, hSpan_self, List.nil_append, min_eq_left hy.le,
      max_eq_right hy.le]

/-- What the loop works out for a place is the cost of the edges that the shift touches. -/
theorem shiftCost_eq (estUsage : GridEdge → ℚ≥0) {s : EdgeShift} (h : tree.Shiftable s) :
    tree.shiftCost estUsage s.direction s.n1 s.n2 s.place =
      touched (cornerCost estUsage) tree s := by
  unfold shiftCost touched
  rw [cornerCost_of_aligned estUsage h]
  rfl

theorem bestPlace_spec (estUsage : GridEdge → ℚ≥0) (tree : Tree) (direction : EdgeDirection)
    (n1 n2 : Nat) (first last : Int) :
    let best := tree.bestPlace estUsage direction n1 n2 first last
    best.2 = tree.coord direction n1 ∨
      best.1 = tree.shiftCost estUsage direction n1 n2 best.2 := by
  dsimp only
  unfold bestPlace
  refine List.foldlRecOn (motive := fun best : Nat × Int => best.2 = tree.coord direction n1 ∨
    best.1 = tree.shiftCost estUsage direction n1 n2 best.2) _ _ (Or.inl rfl) fun best hbest j _ => ?_
  split_ifs
  · exact Or.inr rfl
  · exact hbest

theorem candidate_spec {n1 n2 : Nat} {benefit : Int} {s : EdgeShift}
    (h : tree.candidate estUsage n1 n2 = some (benefit, s)) :
    s.n1 = n1 ∧ s.n2 = n2 ∧ s.direction = tree.direction n1 n2 ∧
      benefit = tree.shiftCost estUsage s.direction n1 n2 (tree.coord s.direction n1) -
        tree.shiftCost estUsage s.direction n1 n2 s.place := by
  unfold candidate at h
  dsimp only at h
  split_ifs at h with hrange hplace
  obtain ⟨rfl, rfl⟩ := Prod.mk.inj (Option.some.inj h)
  refine ⟨rfl, rfl, rfl, ?_⟩
  rw [(bestPlace_spec estUsage tree _ n1 n2 _ _).resolve_left hplace]

/-- A shift that is made helps, as far as the costs that are worked out tell. -/
theorem bestShift_spec {s : EdgeShift} (h : tree.bestShift estUsage = some s) :
    tree.Shiftable s ∧ tree.shiftCost estUsage s.direction s.n1 s.n2 s.place <
      tree.shiftCost estUsage s.direction s.n1 s.n2 (tree.coord s.direction s.n1) := by
  have hall : ∀ best : Int × Option EdgeShift,
      best = tree.straightPairs.foldl
        (fun (best : Int × Option EdgeShift) pair =>
          match tree.candidate estUsage pair.1 pair.2 with
          | some (benefit, shift) => if benefit > best.1 then (benefit, some shift) else best
          | none => best) (-1, none) →
      ∀ s, best.2 = some s → ∃ pair ∈ tree.straightPairs,
        tree.candidate estUsage pair.1 pair.2 = some (best.1, s) := by
    rintro best rfl
    refine List.foldlRecOn (motive := fun best : Int × Option EdgeShift => ∀ s, best.2 = some s →
      ∃ pair ∈ tree.straightPairs, tree.candidate estUsage pair.1 pair.2 = some (best.1, s)) _ _
      (fun s hs => absurd hs (Option.some_ne_none s).symm) fun best hbest pair hpair s hs => ?_
    cases hcandidate : tree.candidate estUsage pair.1 pair.2 with
    | none =>
        rw [hcandidate] at hs
        exact hbest s hs
    | some found =>
        rw [hcandidate] at hs
        dsimp only at hs ⊢
        split_ifs at hs ⊢ with hbetter
        · cases hs
          exact ⟨pair, hpair, hcandidate⟩
        · exact hbest s hs
  unfold bestShift at h
  dsimp only at h
  split_ifs at h with hpos
  obtain ⟨pair, hpair, hcandidate⟩ := hall _ rfl s h
  obtain ⟨h₁, h₂, hdirection, hbenefit⟩ := candidate_spec hcandidate
  rw [← h₁, ← h₂] at hdirection hbenefit
  refine ⟨⟨?_, hdirection⟩, ?_⟩
  · rw [h₁, h₂]
    exact straight_of_mem hpair
  · rw [hbenefit] at hpos
    omega

theorem exists_shift {tree' : Tree} (h : tree.nextShift estUsage = some tree') :
    ∃ s, tree.bestShift estUsage = some s ∧ tree.shift s = tree' := Option.map_eq_some_iff.mp h

/-- Every turn of the loop lowers the sum of the costs that are worked out. -/
theorem total_shift_lt (h : tree.Steiner root) {s : EdgeShift}
    (hs : tree.bestShift estUsage = some s) :
    total (cornerCost estUsage) (tree.shift s) < total (cornerCost estUsage) tree := by
  obtain ⟨hshiftable, hlt⟩ := bestShift_spec hs
  have hcost := shiftCost_eq estUsage hshiftable
  have hstay := shiftCost_eq estUsage hshiftable.stay
  rw [total_shift (cornerCost_comm estUsage) (cornerCost_self estUsage) h hshiftable.pair,
    total_stay (cornerCost_comm estUsage) (cornerCost_self estUsage) h hshiftable, ← hcost, ← hstay]
  exact Nat.add_lt_add_right hlt _

/-- `FastRouteCore::edgeShift`: the tree that no shift makes better, and the number of shifts. -/
def edgeShift (estUsage : GridEdge → ℚ≥0) (tree : Tree) (h : tree.Steiner root) : Tree × Nat :=
  match hs : tree.bestShift estUsage with
  | none => (tree, 0)
  | some s =>
      let shifted := edgeShift estUsage (tree.shift s) (h.shift s)
      (shifted.1, shifted.2 + 1)
termination_by total (cornerCost estUsage) tree
decreasing_by exact total_shift_lt h hs

/-! ### Runs -/

/-- The states of the loop. -/
abbrev Shifts (estUsage : GridEdge → ℚ≥0) : Tree → Tree → Prop :=
  Relation.ReflTransGen fun tree tree' => tree.nextShift estUsage = some tree'

/-- The pointers and the pins are what they were. -/
structure Kept (tree tree' : Tree) : Prop where
  deg : tree'.deg = tree.deg
  branchCount : tree'.branchCount = tree.branchCount
  n : tree'.n = tree.n
  pins : ∀ v < tree.deg, tree'.pos v = tree.pos v

theorem Kept.refl (tree : Tree) : Kept tree tree := ⟨rfl, rfl, rfl, fun _ _ => rfl⟩

theorem Kept.trans {tree' tree'' : Tree} (h : Kept tree tree') (h' : Kept tree' tree'') :
    Kept tree tree'' :=
  ⟨h'.deg.trans h.deg, h'.branchCount.trans h.branchCount, h'.n.trans h.n,
    fun v hv => (h'.pins v (h.deg.symm ▸ hv)).trans (h.pins v hv)⟩

theorem Steiner.kept {tree' : Tree} (h : tree.Steiner root) (hkept : Kept tree tree') :
    tree'.Steiner root := h.congr hkept.deg hkept.branchCount hkept.n

/-- A shift moves two Steiner nodes. -/
theorem kept_shift (h : tree.Steiner root) {s : EdgeShift}
    (hs : tree.bestShift estUsage = some s) : Kept tree (tree.shift s) := by
  refine ⟨shift_deg s, shift_branchCount s, shift_n s, fun v hv => ?_⟩
  obtain ⟨-, c, hge, hlt, -, hcases⟩ := (bestShift_spec hs).1.pair.exists_child h
  have hn := h.n_ge c hlt
  have hne : ¬(v = s.n1 ∨ v = s.n2) := by
    rcases hcases with heq | heq
    · obtain ⟨h₁, h₂⟩ := Prod.mk.inj heq
      omega
    · obtain ⟨h₁, h₂⟩ := Prod.mk.inj heq
      omega
  rw [pos_shift, if_neg hne]

theorem Shifts.kept (h : tree.Steiner root) {tree' : Tree} (hrun : Shifts estUsage tree tree') :
    Kept tree tree' := by
  induction hrun with
  | refl => exact Kept.refl tree
  | tail _ hstep ih =>
      obtain ⟨s, hs, rfl⟩ := exists_shift hstep
      exact ih.trans (kept_shift (h.kept ih) hs)

theorem shifts_edgeShift (estUsage : GridEdge → ℚ≥0) (tree : Tree) (h : tree.Steiner root) :
    Shifts estUsage tree (edgeShift estUsage tree h).1 ∧
      (edgeShift estUsage tree h).1.nextShift estUsage = none := by
  fun_induction edgeShift estUsage tree h with
  | case1 tree h hs =>
      refine ⟨.refl, ?_⟩
      unfold nextShift
      rw [hs]
      rfl
  | case2 tree h s hs shifted ih =>
      refine ⟨.head ?_ ih.1, ih.2⟩
      unfold nextShift
      rw [hs]
      rfl

/-! ### What a shift saves -/

/-- None of the other edges of a node is falling when it is in a row or column. -/
def SideRises (tree : Tree) (direction : EdgeDirection) (v w : Nat) (j : Int) : Prop :=
  ∀ u ∈ tree.nbr v, u ≠ w → ¬Falling (tree.placed direction v j) (tree.pos u)

/-- None of the edges from a pair to other nodes is falling after a shift. -/
def Rises (tree : Tree) (s : EdgeShift) : Prop :=
  SideRises tree s.direction s.n1 s.n2 s.place ∧ SideRises tree s.direction s.n2 s.n1 s.place

instance (tree : Tree) (direction : EdgeDirection) (v w : Nat) (j : Int) :
    Decidable (SideRises tree direction v w j) :=
  inferInstanceAs (Decidable (∀ u ∈ tree.nbr v, u ≠ w → ¬Falling _ _))

instance (tree : Tree) (s : EdgeShift) : Decidable (tree.Rises s) :=
  inferInstanceAs (Decidable (_ ∧ _))

theorem sideSum_eq {direction : EdgeDirection} {v w : Nat} {j : Int}
    (h : SideRises tree direction v w j) :
    sideSum (cornerCost estUsage) tree direction v w j =
      sideSum (estimate estUsage) tree direction v w j := by
  unfold sideSum
  congr 1
  refine List.map_congr_left fun u hu => ?_
  obtain ⟨hmem, hne⟩ := List.mem_filter.mp hu
  exact cornerCost_eq_estimate estUsage (h u hmem (of_decide_eq_true hne))

theorem Rises.touched_eq {s : EdgeShift} (h : tree.Rises s) (hs : tree.Shiftable s) :
    touched (cornerCost estUsage) tree s = touched (estimate estUsage) tree s := by
  have hnot : ¬Falling (tree.placed s.direction s.n1 s.place)
      (tree.placed s.direction s.n2 s.place) := by
    unfold Falling placed
    rcases hs.cases with ⟨hdir, -, -⟩ | ⟨hdir, -, -⟩
    · rw [hdir]
      dsimp only
      omega
    · rw [hdir]
      dsimp only
      omega
  unfold touched
  rw [sideSum_eq h.1, sideSum_eq h.2, cornerCost_eq_estimate estUsage hnot]

/-- A shift with nothing falling before or after it saves what the loop has worked out. -/
theorem estimate_shift_lt (h : tree.Steiner root) {s : EdgeShift}
    (hs : tree.bestShift estUsage = some s) (hbefore : tree.Rises (tree.stay s))
    (hafter : tree.Rises s) :
    total (estimate estUsage) (tree.shift s) < total (estimate estUsage) tree := by
  obtain ⟨hshiftable, hlt⟩ := bestShift_spec hs
  have hcost := shiftCost_eq estUsage hshiftable
  have hstay := shiftCost_eq estUsage hshiftable.stay
  rw [hafter.touched_eq hshiftable] at hcost
  rw [hbefore.touched_eq hshiftable.stay] at hstay
  rw [total_shift (estimate_comm estUsage) (estimate_self estUsage) h hshiftable.pair,
    total_stay (estimate_comm estUsage) (estimate_self estUsage) h hshiftable, ← hcost, ← hstay]
  exact Nat.add_lt_add_right hlt _

/-- Edge shifting ends, with a tree that no shift makes better; all trees on the way have the pointers
and the pins of the first, and every shift with nothing falling before or after it lowers the
estimated cost. -/
theorem edgeShift_spec (estUsage : GridEdge → ℚ≥0) (tree : Tree) (h : tree.Steiner root) :
    Shifts estUsage tree (edgeShift estUsage tree h).1 ∧
      (edgeShift estUsage tree h).1.nextShift estUsage = none ∧
      ∀ tree', Shifts estUsage tree tree' → Kept tree tree' ∧
        ∀ s, tree'.bestShift estUsage = some s → tree'.Rises (tree'.stay s) → tree'.Rises s →
          total (estimate estUsage) (tree'.shift s) < total (estimate estUsage) tree' :=
  ⟨(shifts_edgeShift estUsage tree h).1, (shifts_edgeShift estUsage tree h).2,
    fun _ hrun => ⟨hrun.kept h, fun _ hs hbefore hafter =>
      estimate_shift_lt (h.kept (hrun.kept h)) hs hbefore hafter⟩⟩

/-- Two Steiner nodes side by side, with four pins above them; the first of these is to the left of the
first Steiner node, or straight above it. -/
def pairTree (x0 : Int) : Tree where
  deg := 4
  branchCount := 6
  n := fun v => if v = 2 ∨ v = 3 then 5 else 4
  x := fun v => [x0, 2, 4, 3, 1, 3].getD v 0
  y := fun v => [2, 2, 2, 2, 1, 1].getD v 0

theorem steiner_pairTree (x0 : Int) : (pairTree x0).Steiner 4 where
  root_ge := Nat.le_refl 4
  root_lt := (by decide : 4 < 6)
  n_root := rfl
  n_ge := by
    intro v _
    show 4 ≤ if v = 2 ∨ v = 3 then 5 else 4
    split <;> omega
  n_lt := by
    intro v _
    show (if v = 2 ∨ v = 3 then 5 else 4) < 6
    split <;> omega
  below := by
    intro v hv
    have hfive : DriverPath.Below ((pairTree x0).Points 4) 4 5 1 := .load .top ⟨by decide, rfl⟩
    have hv' : v < 6 := hv
    by_cases hroot : v = 4
    · exact ⟨0, hroot ▸ .top⟩
    · by_cases hside : v = 2 ∨ v = 3
      · exact ⟨2, .load hfive ⟨hroot, if_pos hside⟩⟩
      · exact ⟨1, .load .top ⟨hroot, if_neg hside⟩⟩
  degree := by
    intro v hge hlt
    have hv : v = 4 ∨ v = 5 := by
      have hge' : 4 ≤ v := hge
      have hlt' : v < 6 := hlt
      omega
    rcases hv with rfl | rfl
    · rfl
    · rfl

/-- The pair is moved up to the pins, where there is room. -/
theorem estimate_shift_pairTree :
    total (estimate fun gridEdge => if gridEdge = hEdge 1 1 then 4 else 0)
        ((pairTree 1).shift { direction := .horizontal, n1 := 4, n2 := 5, place := 2 }) <
      total (estimate fun gridEdge => if gridEdge = hEdge 1 1 then 4 else 0) (pairTree 1) :=
  ((edgeShift_spec (fun gridEdge => if gridEdge = hEdge 1 1 then 4 else 0) (pairTree 1)
    (steiner_pairTree 1)).2.2 _ .refl).2 _ (by decide +kernel) (by decide +kernel)
      (by decide +kernel)

/-- With a falling edge to the first pin the pair is moved up to where it costs more. -/
theorem not_edgeShift_improves : ¬ ∀ (estUsage : GridEdge → ℚ≥0) (tree tree' : Tree) (root : Nat),
    tree.Steiner root → Shifts estUsage tree tree' → ∀ s, tree'.bestShift estUsage = some s →
      total (estimate estUsage) (tree'.shift s) < total (estimate estUsage) tree' := by
  intro hall
  have hlt := hall
    (fun gridEdge => if gridEdge = hEdge 2 0 then 5 else if gridEdge = vEdge 1 0 then 3
      else if gridEdge = vEdge 1 1 then 10 else 0)
    (pairTree 0) (pairTree 0) 4 (steiner_pairTree 0) .refl
    { direction := .horizontal, n1 := 4, n2 := 5, place := 2 } (by decide +kernel)
  revert hlt
  decide +kernel

end Tree

end OpenRoad.Grt
