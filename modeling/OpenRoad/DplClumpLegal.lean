import OpenRoad.DplClumpMerge
import Mathlib.Data.List.Chain
import Mathlib.Data.List.Sublists

/-!
Clumping legalizes when the cells are listed behind their left neighbours and no merge moves an end
of a segment out. An end has a great weight but a finite one, and positions are rounded down: a clump
that is pushed against the left end of a segment always moves it.
-/

namespace OpenRoad.Dpl

namespace ClumpGraph

/-- Every merge of a clump is as `P` says, of the state before it. -/
def MergesKeep (G : ClumpGraph) (P : Clumps → Nat → Nat → Int → Prop) :
    Nat → Clumps → Nat → Prop
  | 0, _, _ => True
  | fuel + 1, s, r =>
      match G.violated s r with
      | none => True
      | some (l, dist) => P s r l dist ∧ MergesKeep G P fuel (s.mergeInto r l dist) l

/-- Every merge of some clumps, one after the other. -/
def AllMergesKeep (G : ClumpGraph) (P : Clumps → Nat → Nat → Int → Prop) (fuel : Nat) :
    List Nat → Clumps → Prop
  | [], _ => True
  | i :: rest, s => G.MergesKeep P fuel s i ∧ AllMergesKeep G P fuel rest (G.merge fuel s i)

instance decidableMergesKeep (G : ClumpGraph) (P : Clumps → Nat → Nat → Int → Prop)
    [∀ s r l dist, Decidable (P s r l dist)] : ∀ fuel s r, Decidable (G.MergesKeep P fuel s r)
  | 0, _, _ => inferInstanceAs (Decidable True)
  | fuel + 1, s, r =>
      match h : G.violated s r with
      | none => decidable_of_iff True (by unfold MergesKeep; rw [h])
      | some (l, dist) =>
          have := decidableMergesKeep G P fuel (s.mergeInto r l dist) l
          decidable_of_iff (P s r l dist ∧ MergesKeep G P fuel (s.mergeInto r l dist) l)
            (by rw [MergesKeep, h])

instance decidableAllMergesKeep (G : ClumpGraph) (P : Clumps → Nat → Nat → Int → Prop)
    [∀ s r l dist, Decidable (P s r l dist)] (fuel : Nat) :
    ∀ is s, Decidable (G.AllMergesKeep P fuel is s)
  | [], _ => inferInstanceAs (Decidable True)
  | i :: is, s =>
      have := decidableAllMergesKeep G P fuel is (G.merge fuel s i)
      inferInstanceAs (Decidable (_ ∧ _))

variable {G : ClumpGraph} {Q : Clumps → Prop} {P : Clumps → Nat → Nat → Int → Prop}

theorem merge_invariant (hstep : ∀ s r l dist, Q s → P s r l dist → Q (s.mergeInto r l dist))
    (fuel : Nat) : ∀ s r, Q s → G.MergesKeep P fuel s r → Q (G.merge fuel s r) := by
  induction fuel with
  | zero => exact fun s r h _ => h
  | succ fuel ih =>
      intro s r h hkeep
      unfold MergesKeep at hkeep
      unfold merge
      cases hviolated : G.violated s r with
      | none => exact h
      | some w =>
          rw [hviolated] at hkeep
          exact ih _ _ (hstep s r w.1 w.2 h hkeep.1) hkeep.2

theorem foldl_merge_invariant
    (hstep : ∀ s r l dist, Q s → P s r l dist → Q (s.mergeInto r l dist)) (fuel : Nat)
    (is : List Nat) : ∀ s, Q s → G.AllMergesKeep P fuel is s →
      Q (is.foldl (fun s i => G.merge fuel s i) s) := by
  induction is with
  | nil => exact fun s h _ => h
  | cons i is ih => exact fun s h hkeep => ih _ (merge_invariant hstep fuel s i h hkeep.1) hkeep.2

/-- Where all nodes are clear, nothing is merged. -/
theorem violated_eq_none {s : Clumps} {ord : List Nat} (hs : Sound ord s)
    (hclear : ∀ v ∈ ord, Clear G s.left v) (r : Nat) : G.violated s r = none := by
  cases hviolated : G.violated s r with
  | none => rfl
  | some w =>
      obtain ⟨v, hv, u, hu, -, -, hneg, -⟩ :=
        violated_some (fun v hv => hs.ptr_of_mem hv) (hviolated.trans (congrArg some (Prod.eta w).symm))
      have := hclear v ((hs.mem r v).mp hv).1 u hu
      unfold diff at hneg
      omega

theorem merge_of_clear {s : Clumps} {ord : List Nat} (hs : Sound ord s)
    (hclear : ∀ v ∈ ord, Clear G s.left v) (fuel r : Nat) : G.merge fuel s r = s := by
  cases fuel with
  | zero => rfl
  | succ fuel =>
      unfold merge
      rw [violated_eq_none hs hclear r]

theorem foldl_merge_of_clear {s : Clumps} {ord : List Nat} (hs : Sound ord s)
    (hclear : ∀ v ∈ ord, Clear G s.left v) (fuel : Nat) (is : List Nat) :
    is.foldl (fun s i => G.merge fuel s i) s = s := by
  induction is with
  | nil => rfl
  | cons i is ih =>
      rw [List.foldl_cons, merge_of_clear hs hclear fuel i]
      exact ih

end ClumpGraph

namespace ShiftLegalizer

variable (A : ShiftLegalizer)

/-- No two neighbouring cells of a segment overlap. -/
def NoOverlap : Prop :=
  ∀ i < A.segs.length, ∀ p ∈ pairs (A.seg i).cells, A.left p.1 + A.width p.1 ≤ A.left p.2

/-- Every cell lies inside its segments. -/
def InsideSegs : Prop :=
  ∀ i < A.segs.length, ∀ n ∈ (A.seg i).cells,
    (A.seg i).minX ≤ A.left n ∧ A.left n + A.width n ≤ (A.seg i).maxX

/-- Every cell stands on the lowest of its rows. -/
def OnRows (order : List Nat) : Prop := ∀ n ∈ order, A.bottom n = A.rowBottom (A.lowestRow n)

/-- Movable cells assigned to segments that have room for them. -/
structure Assigned (order : List Nat) : Prop where
  nodup : order.Nodup
  lt : ∀ n ∈ order, n < A.nnodes
  listed : ∀ i < A.segs.length, ∀ n ∈ (A.seg i).cells, n ∈ order
  reverse : ∀ n ∈ order, ∀ i, i ∈ A.reverseCellToSegs n ↔
    i < A.segs.length ∧ n ∈ (A.seg i).cells
  width : ∀ n, 0 ≤ A.width n
  fits : ∀ i < A.segs.length, ((A.seg i).cells.map A.width).sum ≤ (A.seg i).maxX - (A.seg i).minX

/-- The cells of every segment are listed from left to right. -/
def ListedLeftFirst (order : List Nat) : Prop :=
  ∀ i < A.segs.length, (A.seg i).cells.Sublist order

/-- The ends of the segments are where they belong, or further in. -/
def EndsInside (s : Clumps) : Prop :=
  ∀ i < A.segs.length, (A.seg i).minX ≤ s.left (A.dummyLeft i) ∧
    s.left (A.dummyRight i) ≤ (A.seg i).maxX

instance (s : Clumps) : Decidable (A.EndsInside s) :=
  inferInstanceAs (Decidable (∀ i < A.segs.length, _ ∧ _))

/-- No merge moves an end of a segment out. -/
def EndsKept (order : List Nat) : Prop :=
  A.graph.AllMergesKeep
    (fun s r l dist => A.EndsInside s → A.EndsInside (s.mergeInto r l dist))
    (A.allNodes order).length (List.range (A.allNodes order).length) (A.firstClumps order)

instance (order : List Nat) : Decidable (A.EndsKept order) :=
  inferInstanceAs (Decidable (ClumpGraph.AllMergesKeep _ _ _ _ _))

/-! ### Neighbours -/

theorem pairs_cons_cons (a b : Nat) (l : List Nat) : pairs (a :: b :: l) = (a, b) :: pairs (b :: l) :=
  rfl

theorem isChain_iff_pairs {R : Nat → Nat → Prop} (l : List Nat) :
    l.IsChain R ↔ ∀ p ∈ pairs l, R p.1 p.2 := by
  induction l with
  | nil => exact iff_of_true List.IsChain.nil fun p hp => absurd hp List.not_mem_nil
  | cons a l ih =>
      cases l with
      | nil => exact iff_of_true (List.IsChain.singleton a) fun p hp => absurd hp List.not_mem_nil
      | cons b l =>
          rw [List.isChain_cons_cons, pairs_cons_cons, List.forall_mem_cons, ih]

theorem sublist_of_pair {u v : Nat} (l : List Nat) (h : (u, v) ∈ pairs l) : [u, v].Sublist l := by
  induction l with
  | nil => cases h
  | cons a l ih =>
      cases l with
      | nil => cases h
      | cons b l =>
          rw [pairs_cons_cons] at h
          rcases List.mem_cons.mp h with heq | h
          · obtain ⟨rfl, rfl⟩ := Prod.mk.inj heq
            exact ((List.nil_sublist l).cons_cons v).cons_cons u
          · exact (ih h).cons a

/-- What stands in front of a node in a part of a list stands in front of it in the list. -/
theorem mem_before_of_sublist {before after : List Nat} {u v : Nat}
    (hnodup : (before ++ v :: after).Nodup) (h : [u, v].Sublist (before ++ v :: after)) :
    u ∈ before := by
  have hv : v ∉ after := (List.nodup_cons.mp (List.nodup_append.mp hnodup).2.1).1
  have hv' : v ∉ before := fun hmem =>
    (List.nodup_append.mp hnodup).2.2 v hmem v List.mem_cons_self rfl
  obtain ⟨l₁, l₂, heq, h₁, h₂⟩ := List.sublist_append_iff.mp h
  cases l₁ with
  | nil =>
      obtain rfl : [u, v] = l₂ := heq
      rcases List.sublist_cons_iff.mp h₂ with h₂ | ⟨r, hr, h₂⟩
      · exact absurd (h₂.subset (List.mem_cons_of_mem _ (List.mem_singleton_self v))) hv
      · obtain ⟨-, rfl⟩ := List.cons.inj hr
        exact absurd (h₂.subset (List.mem_singleton_self v)) hv
  | cons a l₁ =>
      obtain ⟨rfl, -⟩ := List.cons.inj heq
      exact h₁.subset List.mem_cons_self

variable {A} {order : List Nat}

theorem mem_incoming {u v : Nat} :
    u ∈ A.graph.incoming v ↔ ∃ i < A.segs.length, (u, v) ∈ pairs (A.cellsInSeg i) := by
  simp [graph]

/-! ### The clumps before the clumping -/

theorem mem_allNodes {n : Nat} : n ∈ A.allNodes order ↔
    (∃ i < A.segs.length, A.dummyLeft i = n) ∨ n ∈ order ∨
      ∃ i < A.segs.length, A.dummyRight i = n := by
  simp [allNodes]

/-- The clump of a node before the clumping. -/
def nodeClump (A : ShiftLegalizer) (n : Nat) : Clump :=
  if n < A.nnodes then A.cellClump n
  else if n < A.nnodes + A.segs.length then endClump n (A.seg (n - A.nnodes)).minX
  else endClump n (A.seg (n - A.nnodes - A.segs.length)).maxX

theorem nodeClump_left {i : Nat} (hi : i < A.segs.length) :
    A.nodeClump (A.dummyLeft i) = endClump (A.dummyLeft i) (A.seg i).minX := by
  unfold nodeClump dummyLeft
  rw [if_neg (by omega), if_pos (by omega), Nat.add_sub_cancel_left]

theorem nodeClump_right (A : ShiftLegalizer) (i : Nat) :
    A.nodeClump (A.dummyRight i) = endClump (A.dummyRight i) (A.seg i).maxX := by
  unfold nodeClump dummyRight
  rw [if_neg (by omega), if_neg (by omega), Nat.add_assoc, Nat.add_sub_cancel_left,
    Nat.add_sub_cancel_left]

theorem nodeClump_nodes (A : ShiftLegalizer) (n : Nat) : (A.nodeClump n).nodes = [n] := by
  unfold nodeClump
  split_ifs <;> rfl

theorem firstClumps_clump (h : A.Assigned order) (c : Nat) :
    (A.firstClumps order).clump c =
      ((A.allNodes order).map A.nodeClump).getD c ⟨[], 0, 0, 0⟩ := by
  unfold firstClumps allNodes
  dsimp only
  rw [List.map_append, List.map_append, List.map_map, List.map_map]
  congr 3
  · refine List.map_congr_left fun i hi => (nodeClump_left (List.mem_range.mp hi)).symm
  · exact List.map_congr_left fun n hn => (if_pos (h.lt n hn)).symm
  · exact funext fun i => (nodeClump_right A i).symm

theorem Assigned.allNodes_nodup (h : A.Assigned order) : (A.allNodes order).Nodup := by
  have hrange : ∀ f : Nat → Nat, (∀ i j, f i = f j → i = j) →
      ((List.range A.segs.length).map f).Nodup := fun f hf =>
    List.nodup_range.map fun i j => hf i j
  unfold allNodes
  refine List.nodup_append.mpr ⟨List.nodup_append.mpr ⟨hrange _ ?_, h.nodup, ?_⟩, hrange _ ?_, ?_⟩
  · exact fun i j heq => Nat.add_left_cancel heq
  · rintro a ha b hb rfl
    obtain ⟨i, -, rfl⟩ := List.mem_map.mp ha
    have := h.lt _ hb
    unfold dummyLeft at this
    omega
  · exact fun i j heq => Nat.add_left_cancel heq
  · rintro a ha b hb rfl
    obtain ⟨j, -, rfl⟩ := List.mem_map.mp hb
    rcases List.mem_append.mp ha with ha | ha
    · obtain ⟨i, hi, heq⟩ := List.mem_map.mp ha
      have := List.mem_range.mp hi
      unfold dummyLeft dummyRight at heq
      omega
    · have := h.lt _ ha
      unfold dummyRight at this
      omega

theorem firstClumps_idxOf (h : A.Assigned order) {n : Nat} (hn : n ∈ A.allNodes order) :
    (A.firstClumps order).clump ((A.allNodes order).idxOf n) = A.nodeClump n := by
  have hlt := List.idxOf_lt_length_iff.mpr hn
  rw [firstClumps_clump h, List.getD_eq_getElem?_getD, List.getElem?_map,
    List.getElem?_eq_getElem hlt, List.getElem_idxOf]
  rfl

theorem firstClumps_mem (h : A.Assigned order) (c n : Nat) :
    n ∈ ((A.firstClumps order).clump c).nodes ↔
      n ∈ A.allNodes order ∧ (A.firstClumps order).ptr n = c := by
  rw [firstClumps_clump h, List.getD_eq_getElem?_getD, List.getElem?_map]
  constructor
  · intro hn
    cases hget : (A.allNodes order)[c]? with
    | none =>
        rw [hget] at hn
        exact absurd hn List.not_mem_nil
    | some m =>
        rw [hget, Option.map_some, Option.getD_some, nodeClump_nodes, List.mem_singleton] at hn
        subst hn
        obtain ⟨hc, rfl⟩ := List.getElem?_eq_some_iff.mp hget
        exact ⟨List.getElem_mem hc, h.allNodes_nodup.idxOf_getElem c hc⟩
  · rintro ⟨hn, rfl⟩
    have hlt := List.idxOf_lt_length_iff.mpr hn
    show n ∈ Clump.nodes (((A.allNodes order)[(A.allNodes order).idxOf n]?.map A.nodeClump).getD _)
    rw [List.getElem?_eq_getElem hlt, List.getElem_idxOf, Option.map_some, Option.getD_some,
      nodeClump_nodes]
    exact List.mem_singleton_self n

/-- A cell inside its segments is not moved when its clump is made. -/
theorem cellClump_posn (h : A.Assigned order) (hinside : A.InsideSegs) {n : Nat} (hn : n ∈ order) :
    (A.cellClump n).posn = A.left n := by
  have hfold : ∀ is : List Nat, (∀ i ∈ is, i ∈ A.reverseCellToSegs n) →
      is.foldl (fun posn i => min (max posn (A.seg i).minX) ((A.seg i).maxX - A.width n))
        (A.left n) = A.left n := by
    intro is his
    induction is with
    | nil => rfl
    | cons i is ih =>
        obtain ⟨hi, hmem⟩ := (h.reverse n hn i).mp (his i List.mem_cons_self)
        obtain ⟨hmin, hmax⟩ := hinside i hi n hmem
        rw [List.foldl_cons, max_eq_left hmin, min_eq_left (by omega)]
        exact ih fun j hj => his j (List.mem_cons_of_mem _ hj)
  exact hfold _ fun i hi => hi

theorem endClump_mean (n : Nat) (x : Int) :
    0 < (endClump n x).weight ∧ (endClump n x).posn =
      (endClump n x).wposn / (endClump n x).weight :=
  ⟨show (0 : Int) < 100000000 by decide,
    (Int.mul_ediv_cancel_left x (show (100000000 : Int) ≠ 0 by decide)).symm⟩

theorem firstClumps_sound (h : A.Assigned order) (hinside : A.InsideSegs) :
    ClumpGraph.Sound (A.allNodes order) (A.firstClumps order) where
  mem := firstClumps_mem h
  mean := fun c hc => by
    obtain ⟨n, hn⟩ := List.exists_mem_of_ne_nil _ hc
    obtain ⟨hmem, rfl⟩ := (firstClumps_mem h c n).mp hn
    have hclump : (A.firstClumps order).clump ((A.firstClumps order).ptr n) = A.nodeClump n :=
      firstClumps_idxOf h hmem
    rw [hclump]
    rcases mem_allNodes.mp hmem with ⟨i, hi, rfl⟩ | hn | ⟨i, -, rfl⟩
    · rw [nodeClump_left hi]
      exact endClump_mean _ _
    · rw [nodeClump, if_pos (h.lt n hn)]
      exact ⟨Int.one_pos, (cellClump_posn h hinside hn).trans (Int.ediv_one _).symm⟩
    · rw [nodeClump_right]
      exact endClump_mean _ _

theorem firstClumps_settled (h : A.Assigned order) (hinside : A.InsideSegs) :
    ClumpGraph.Settled A.graph (A.allNodes order) [] (A.firstClumps order) where
  sound := firstClumps_sound h hinside
  fresh := fun i n hi _ => by
    obtain ⟨hlt, rfl⟩ := List.getElem?_eq_some_iff.mp hi
    refine ⟨h.allNodes_nodup.idxOf_getElem i hlt, fun m hm hne heq => hne ?_⟩
    have hget := List.getElem_idxOf (List.idxOf_lt_length_iff.mpr hm)
    simp only [show (A.allNodes order).idxOf m = i from heq] at hget
    exact hget.symm
  clear := fun v hv => absurd hv List.not_mem_nil
  feasible := ⟨fun _ => 0, fun e ⟨v, hv, _⟩ => absurd hv List.not_mem_nil⟩

/-! ### The places of the nodes before the clumping -/

theorem firstClumps_left (h : A.Assigned order) {n : Nat} (hn : n ∈ A.allNodes order) :
    (A.firstClumps order).left n = (A.nodeClump n).posn := by
  unfold Clumps.left
  rw [show (A.firstClumps order).ptr n = (A.allNodes order).idxOf n from rfl,
    firstClumps_idxOf h hn]
  exact Int.add_zero _

theorem firstClumps_left_cell (h : A.Assigned order) (hinside : A.InsideSegs) {n : Nat}
    (hn : n ∈ order) : (A.firstClumps order).left n = A.left n := by
  rw [firstClumps_left h (mem_allNodes.mpr (Or.inr (Or.inl hn))), nodeClump, if_pos (h.lt n hn)]
  exact cellClump_posn h hinside hn

theorem firstClumps_left_dummyLeft (h : A.Assigned order) {i : Nat} (hi : i < A.segs.length) :
    (A.firstClumps order).left (A.dummyLeft i) = (A.seg i).minX := by
  rw [firstClumps_left h (mem_allNodes.mpr (Or.inl ⟨i, hi, rfl⟩)), nodeClump_left hi]
  rfl

theorem firstClumps_left_dummyRight (h : A.Assigned order) {i : Nat} (hi : i < A.segs.length) :
    (A.firstClumps order).left (A.dummyRight i) = (A.seg i).maxX := by
  rw [firstClumps_left h (mem_allNodes.mpr (Or.inr (Or.inr ⟨i, hi, rfl⟩))), nodeClump_right]
  rfl

theorem Assigned.endsInside (h : A.Assigned order) : A.EndsInside (A.firstClumps order) :=
  fun _ hi => ⟨(firstClumps_left_dummyLeft h hi).ge, (firstClumps_left_dummyRight h hi).le⟩

/-! ### Segments -/

theorem graph_width_cell (h : A.Assigned order) {n : Nat} (hn : n ∈ order) :
    A.graph.width n = A.width n := if_pos (h.lt n hn)

theorem graph_width_dummyLeft (A : ShiftLegalizer) (i : Nat) : A.graph.width (A.dummyLeft i) = 0 :=
  if_neg (by unfold dummyLeft; omega)

theorem graph_width_nonneg (h : A.Assigned order) (n : Nat) : 0 ≤ A.graph.width n := by
  show 0 ≤ if n < A.nnodes then A.width n else 0
  split_ifs
  · exact h.width n
  · exact le_rfl

/-- The nodes of a segment are clear of each other, as they stand. -/
abbrev SegClear (A : ShiftLegalizer) (left : Nat → Int) (i : Nat) : Prop :=
  (A.cellsInSeg i).IsChain fun u v => left u + A.graph.width u ≤ left v

theorem isTrans_clear (h : A.Assigned order) (left : Nat → Int) :
    IsTrans Nat fun u v => left u + A.graph.width u ≤ left v :=
  ⟨fun a b c hab hbc => by have := graph_width_nonneg h b; omega⟩

theorem segClear_of_clear {left : Nat → Int} {nodes : List Nat}
    (hclear : ∀ v ∈ nodes, ClumpGraph.Clear A.graph left v) {i : Nat} (hi : i < A.segs.length)
    (hnodes : ∀ v ∈ A.cellsInSeg i, v ∈ nodes) : A.SegClear left i := by
  refine (isChain_iff_pairs _).mpr fun p hp => ?_
  have hv := (sublist_of_pair _ hp).subset (List.mem_cons_of_mem _ (List.mem_singleton_self p.2))
  exact hclear p.2 (hnodes p.2 hv) p.1 (mem_incoming.mpr ⟨i, hi, hp⟩)

theorem cellsInSeg_mem (h : A.Assigned order) {i : Nat} (hi : i < A.segs.length) {v : Nat}
    (hv : v ∈ A.cellsInSeg i) : v ∈ A.allNodes order := by
  rw [mem_allNodes]
  rcases List.mem_cons.mp hv with rfl | hv
  · exact Or.inl ⟨i, hi, rfl⟩
  · rcases List.mem_append.mp hv with hv | hv
    · exact Or.inr (Or.inl (h.listed i hi v hv))
    · exact Or.inr (Or.inr ⟨i, hi, (List.mem_singleton.mp hv).symm⟩)

/-- In a clear segment the cells do not overlap, and stand between the ends. -/
theorem SegClear.cells (h : A.Assigned order) {left : Nat → Int} {i : Nat}
    (hi : i < A.segs.length) (hclear : A.SegClear left i) :
    (∀ p ∈ pairs (A.seg i).cells, left p.1 + A.width p.1 ≤ left p.2) ∧
      ∀ n ∈ (A.seg i).cells, left (A.dummyLeft i) ≤ left n ∧
        left n + A.width n ≤ left (A.dummyRight i) := by
  have htrans := isTrans_clear h left
  obtain ⟨hfirst, hrest⟩ := List.pairwise_cons.mp (List.isChain_iff_pairwise.mp hclear)
  obtain ⟨hcells, -, hlast⟩ := List.pairwise_append.mp hrest
  constructor
  · intro p hp
    have hmem := (sublist_of_pair _ hp).subset List.mem_cons_self
    rw [← graph_width_cell h (h.listed i hi p.1 hmem)]
    exact (isChain_iff_pairs _).mp hcells.isChain p hp
  · intro n hn
    have hleft := hfirst n (List.mem_append_left _ hn)
    have hright := hlast n hn _ (List.mem_singleton_self _)
    rw [graph_width_dummyLeft] at hleft
    rw [graph_width_cell h (h.listed i hi n hn)] at hright
    exact ⟨by omega, hright⟩

/-! ### The clumping -/

theorem ListedLeftFirst.leftFirst (h : A.Assigned order) (hlisted : A.ListedLeftFirst order) :
    ClumpGraph.LeftFirst A.graph (A.allNodes order) := by
  intro before v after heq u hu
  obtain ⟨i, hi, hpair⟩ := mem_incoming.mp hu
  have hsub : (A.cellsInSeg i).Sublist (A.allNodes order) := by
    have hi := List.mem_range.mpr hi
    unfold cellsInSeg allNodes
    rw [List.append_assoc, ← List.singleton_append]
    exact (List.singleton_sublist.mpr (List.mem_map_of_mem hi)).append
      ((hlisted i (List.mem_range.mp hi)).append
        (List.singleton_sublist.mpr (List.mem_map_of_mem hi)))
  exact mem_before_of_sublist (heq ▸ h.allNodes_nodup)
    (heq ▸ (sublist_of_pair _ hpair).trans hsub)

theorem clumped_settled (h : A.Assigned order) (hinside : A.InsideSegs)
    (hlisted : A.ListedLeftFirst order) :
    ClumpGraph.Settled A.graph (A.allNodes order) (A.allNodes order) (A.clumped order) := by
  have hfold := (firstClumps_settled h hinside).foldl h.allNodes_nodup (hlisted.leftFirst h)
    (A.allNodes order) [] _ rfl
  unfold clumped
  rw [List.range_eq_range']
  exact hfold

theorem clumped_endsInside (h : A.Assigned order) (hkept : A.EndsKept order) :
    A.EndsInside (A.clumped order) :=
  ClumpGraph.foldl_merge_invariant (fun _ _ _ _ hends hstep => hstep hends) _ _ _ h.endsInside
    hkept

theorem shift_left (A : ShiftLegalizer) {n : Nat} (hn : n ∈ order) :
    (A.shift order).left n = (A.clumped order).left n := if_pos hn

theorem sum_width_nonneg (h : A.Assigned order) (cells : List Nat) :
    0 ≤ (cells.map A.width).sum := by
  induction cells with
  | nil => exact le_rfl
  | cons n cells ih =>
      have := h.width n
      rw [List.map_cons, List.sum_cons]
      omega

/-- Where nothing overlaps and all cells are inside, the nodes are clear before the clumping. -/
theorem firstClumps_clear (h : A.Assigned order) (hinside : A.InsideSegs) (hno : A.NoOverlap)
    {v : Nat} : ClumpGraph.Clear A.graph (A.firstClumps order).left v := by
  intro u hu
  obtain ⟨i, hi, hpair⟩ := mem_incoming.mp hu
  have hcell : ∀ n ∈ (A.seg i).cells, (A.firstClumps order).left n = A.left n := fun n hn =>
    firstClumps_left_cell h hinside (h.listed i hi n hn)
  have hseg : A.SegClear (A.firstClumps order).left i := by
    have hcells : (A.seg i).cells.IsChain fun u v =>
        (A.firstClumps order).left u + A.graph.width u ≤ (A.firstClumps order).left v := by
      refine (isChain_iff_pairs _).mpr fun p hp => ?_
      have hsub := (sublist_of_pair _ hp).subset
      have hu := hsub List.mem_cons_self
      have hv := hsub (List.mem_cons_of_mem _ (List.mem_singleton_self p.2))
      rw [hcell p.1 hu, hcell p.2 hv, graph_width_cell h (h.listed i hi p.1 hu)]
      exact hno i hi p hp
    have hends : (A.seg i).minX ≤ (A.seg i).maxX := by
      have hfits := h.fits i hi
      have hsum := sum_width_nonneg h (A.seg i).cells
      omega
    have hend := firstClumps_left_dummyRight h hi
    have htrans := isTrans_clear h (A.firstClumps order).left
    refine (List.isChain_iff_pairwise.mpr (List.pairwise_cons.mpr ⟨fun n hn => ?_,
      List.pairwise_append.mpr ⟨List.isChain_iff_pairwise.mp hcells, List.pairwise_singleton _ _,
        fun n hn m hm => ?_⟩⟩))
    · rw [firstClumps_left_dummyLeft h hi, graph_width_dummyLeft]
      rcases List.mem_append.mp hn with hn | hn
      · rw [hcell n hn]
        have := (hinside i hi n hn).1
        omega
      · rw [List.mem_singleton.mp hn, hend]
        omega
    · rw [List.mem_singleton.mp hm, hend, hcell n hn, graph_width_cell h (h.listed i hi n hn)]
      exact (hinside i hi n hn).2
  exact (isChain_iff_pairs _).mp hseg (u, v) hpair

theorem clumped_of_clear (h : A.Assigned order) (hinside : A.InsideSegs) (hno : A.NoOverlap) :
    A.clumped order = A.firstClumps order :=
  ClumpGraph.foldl_merge_of_clear (firstClumps_sound h hinside)
    (fun _ _ => firstClumps_clear h hinside hno) _ _

/-- The cells as they stand after the clumping, in each segment. -/
theorem shift_segClear (h : A.Assigned order) (hinside : A.InsideSegs)
    (hlisted : A.ListedLeftFirst order) {i : Nat} (hi : i < A.segs.length) :
    A.SegClear (A.clumped order).left i :=
  segClear_of_clear (clumped_settled h hinside hlisted).clear hi fun _ hv => cellsInSeg_mem h hi hv

theorem shift_noOverlap (h : A.Assigned order) (hinside : A.InsideSegs)
    (hlisted : A.ListedLeftFirst order) : (A.shift order).NoOverlap := by
  intro i hi p hp
  have hsub := (sublist_of_pair _ hp).subset
  have hu := h.listed i hi p.1 (hsub List.mem_cons_self)
  have hv := h.listed i hi p.2 (hsub (List.mem_cons_of_mem _ (List.mem_singleton_self _)))
  rw [shift_left A hu, shift_left A hv]
  exact ((shift_segClear h hinside hlisted hi).cells h hi).1 p hp

theorem shift_insideSegs (h : A.Assigned order) (hinside : A.InsideSegs)
    (hlisted : A.ListedLeftFirst order) (hkept : A.EndsKept order) :
    (A.shift order).InsideSegs := by
  intro i hi n hn
  obtain ⟨hleft, hright⟩ := ((shift_segClear h hinside hlisted hi).cells h hi).2 n hn
  obtain ⟨hmin, hmax⟩ := clumped_endsInside h hkept i hi
  rw [shift_left A (h.listed i hi n hn)]
  exact ⟨hmin.trans hleft, hright.trans hmax⟩

theorem shift_onRows (A : ShiftLegalizer) (order : List Nat) : (A.shift order).OnRows order :=
  fun _ hn => if_pos hn

theorem shift_left_of_legal (h : A.Assigned order) (hinside : A.InsideSegs) (hno : A.NoOverlap)
    (n : Nat) : (A.shift order).left n = A.left n := by
  by_cases hn : n ∈ order
  · rw [shift_left A hn, clumped_of_clear h hinside hno]
    exact firstClumps_left_cell h hinside hn
  · exact if_neg hn

theorem shift_bottom_of_onRows (hrows : A.OnRows order) (n : Nat) :
    (A.shift order).bottom n = A.bottom n := by
  by_cases hn : n ∈ order
  · exact (if_pos hn).trans (hrows n hn).symm
  · exact if_neg hn

/-- Clumping legalizes when the cells are listed from left to right and no merge moves an end of a
segment out; what is legal is not moved. -/
theorem shift_legal (h : A.Assigned order) (hinside : A.InsideSegs) :
    (A.ListedLeftFirst order → (A.shift order).NoOverlap ∧ (A.shift order).OnRows order) ∧
      (A.ListedLeftFirst order → A.EndsKept order → (A.shift order).InsideSegs) ∧
      (A.NoOverlap → A.OnRows order → ∀ n,
        (A.shift order).left n = A.left n ∧ (A.shift order).bottom n = A.bottom n) :=
  ⟨fun hlisted => ⟨shift_noOverlap h hinside hlisted, shift_onRows A order⟩,
    shift_insideSegs h hinside,
    fun hno hrows n => ⟨shift_left_of_legal h hinside hno n, shift_bottom_of_onRows hrows n⟩⟩

/-! ### Three cells of a segment -/

/-- Three cells of width 10 in a segment that ends at 100. -/
def threeCells (left : List Int) : ShiftLegalizer where
  nnodes := 3
  left := fun n => left.getD n 0
  bottom := fun _ => 0
  width := fun _ => 10
  segs := [⟨0, 100, 0, [0, 1, 2]⟩]
  reverseCellToSegs := fun _ => [0]
  rowBottom := fun _ => 0

theorem threeCells_assigned (left : List Int) {order : List Nat} (h : order.Perm [0, 1, 2]) :
    (threeCells left).Assigned order where
  nodup := h.nodup_iff.mpr (by decide)
  lt := fun n hn => (show ∀ n ∈ [0, 1, 2], n < 3 by decide) n (h.mem_iff.mp hn)
  listed := fun i hi n hn => by
    obtain rfl := Nat.lt_one_iff.mp hi
    exact h.mem_iff.mpr hn
  reverse := fun n hn i => by
    constructor
    · intro hi
      obtain rfl := List.mem_singleton.mp hi
      exact ⟨Nat.one_pos, h.mem_iff.mp hn⟩
    · exact fun hi => List.mem_singleton.mpr (Nat.lt_one_iff.mp hi.1)
  width := fun _ => show (0 : Int) ≤ 10 by decide
  fits := fun i hi => by
    obtain rfl := Nat.lt_one_iff.mp hi
    exact show (30 : Int) ≤ 100 by decide

theorem threeCells_insideSegs {left : List Int}
    (h : ∀ n ∈ [0, 1, 2], 0 ≤ left.getD n 0 ∧ left.getD n 0 + 10 ≤ 100) :
    (threeCells left).InsideSegs := fun i hi n hn => by
  obtain rfl := Nat.lt_one_iff.mp hi
  exact h n hn

theorem threeCells_listed (left : List Int) : (threeCells left).ListedLeftFirst [0, 1, 2] :=
  fun i hi => by
    obtain rfl := Nat.lt_one_iff.mp hi
    exact List.Sublist.refl _

/-- Listed from left to right, the cells at 20, 25 and 35 come apart. -/
theorem threeCells_legal : ((threeCells [20, 25, 35]).shift [0, 1, 2]).NoOverlap ∧
    ((threeCells [20, 25, 35]).shift [0, 1, 2]).InsideSegs := by
  have hlisted := threeCells_listed [20, 25, 35]
  have hlegal := @shift_legal (threeCells [20, 25, 35]) [0, 1, 2]
    (threeCells_assigned _ (List.Perm.refl _)) (threeCells_insideSegs (by decide))
  exact ⟨(hlegal.1 hlisted).1, hlegal.2.1 hlisted (by decide)⟩

/-- Listed the other way around they are left with an overlap. Cells at 0 and 5 are moved out of the
segment, even if they are listed from left to right. -/
theorem not_threeCells_legal :
    (¬∀ (A : ShiftLegalizer) (order : List Nat), A.Assigned order → A.InsideSegs →
      (A.shift order).NoOverlap) ∧
    ¬∀ (A : ShiftLegalizer) (order : List Nat), A.Assigned order → A.InsideSegs →
      A.ListedLeftFirst order → (A.shift order).InsideSegs := by
  constructor
  · intro h
    have hno := h (threeCells [20, 25, 35]) [2, 1, 0] (threeCells_assigned _ (by decide))
      (threeCells_insideSegs (by decide))
    exact absurd (hno 0 Nat.one_pos (1, 2) (by decide)) (by decide)
  · intro h
    have hin := h (threeCells [0, 5, 35]) [0, 1, 2] (threeCells_assigned _ (List.Perm.refl _))
      (threeCells_insideSegs (by decide)) (threeCells_listed _)
    exact absurd (hin 0 Nat.one_pos 0 (by decide)).1 (by decide)

end ShiftLegalizer

end OpenRoad.Dpl
