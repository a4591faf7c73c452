import OpenRoad.ParRefiner
import Mathlib.Tactic.Abel

/-!
What a move of one vertex changes: the degrees and the balance that the refiner keeps are those of
the new solution, and the gain that it computes from the degrees is the decrease of the cut cost.
-/

namespace OpenRoad.Par

open Finset

variable {d k : Nat}

/-! ### Hypergraphs whose hyperedges are sets -/

namespace Hypergraph

/-- What the constructor is given: as many weights as hyperedges, and no vertex out of range or twice
in one hyperedge. -/
structure Rows (hyperedges : List (List Nat)) (vertexWeights : List (Weights d))
    (hyperedgeWeights : List (Weights k)) : Prop where
  length_eq : hyperedges.length = hyperedgeWeights.length
  lt : ∀ row ∈ hyperedges, ∀ v ∈ row, v < vertexWeights.length
  nodup : ∀ row ∈ hyperedges, row.Nodup

/-- The rows of vertices and those of hyperedges are the two sides of one relation. -/
structure Simple (H : Hypergraph d k) : Prop where
  nodup_vertices : ∀ e, (H.vertices e).Nodup
  nodup_edges : ∀ v, (H.edges v).Nodup
  vertex_lt : ∀ e, ∀ v ∈ H.vertices e, v < H.numVertices
  edge_lt : ∀ v, ∀ e ∈ H.edges v, e < H.numHyperedges
  mem_edges : ∀ v e, e ∈ H.edges v ↔ v ∈ H.vertices e

theorem slice_of_le {rows : List (List Nat)} {i : Nat} (h : rows.length ≤ i) :
    slice (flatten rows) i = [] := by
  unfold slice
  have hnext : (flatten rows).2.getD (i + 1) 0 = 0 := by
    apply List.getD_eq_default
    rw [length_flatten_snd]
    omega
  rw [hnext, Nat.zero_sub, List.take_zero]

/-- A row of hyperedge `e` adds it to the vertices of the row. -/
theorem foldl_scatter {row : List Nat} (hnodup : row.Nodup) (e : Nat)
    (vertices : Nat → List Nat) (v : Nat) :
    row.foldl (fun vertices v => Function.update vertices v (vertices v ++ [e])) vertices v =
      vertices v ++ if v ∈ row then [e] else [] := by
  induction row generalizing vertices with
  | nil => simp
  | cons u row ih =>
      obtain ⟨hu, hrow⟩ := List.nodup_cons.mp hnodup
      rw [List.foldl_cons, ih hrow]
      by_cases huv : v = u
      · subst huv
        rw [Function.update_self, if_neg hu, if_pos List.mem_cons_self, List.append_nil]
      · rw [Function.update_of_ne huv]
        simp [huv]

/-- The hyperedges of a vertex are those whose row holds it, in their order. -/
theorem incidence_eq (rows : List (List Nat)) (hnodup : ∀ row ∈ rows, row.Nodup) (v : Nat) :
    incidence rows v = (List.range rows.length).filter fun e => v ∈ rows.getD e [] := by
  induction rows using List.reverseRecOn with
  | nil => rfl
  | append_singleton rows row ih =>
      have hrows := ih fun row h => hnodup row (List.mem_append_left _ h)
      have hold : ((List.range rows.length).filter fun e => v ∈ (rows ++ [row]).getD e []) =
          (List.range rows.length).filter fun e => v ∈ rows.getD e [] := by
        apply List.filter_congr
        intro e he
        rw [List.getD_append _ _ _ _ (List.mem_range.mp he)]
      have hlast : (rows ++ [row]).getD rows.length [] = row := by
        rw [List.getD_append_right _ _ _ _ le_rfl, Nat.sub_self]
        rfl
      unfold incidence at hrows ⊢
      rw [List.zipIdx_append, List.foldl_append, List.zipIdx_singleton, List.foldl_cons,
        List.foldl_nil,
        foldl_scatter (hnodup row (List.mem_append_right _ (List.mem_singleton_self _))), hrows,
        List.length_append, List.length_singleton, List.range_succ, List.filter_append, hold,
        Nat.zero_add]
      congr 1
      rw [List.filter_cons, hlast]
      simp

variable {hyperedges : List (List Nat)} {vertexWeights : List (Weights d)}
  {hyperedgeWeights : List (Weights k)}

theorem make_vertices (fixedAttr : List Int) (e : Nat) :
    (make hyperedges vertexWeights hyperedgeWeights fixedAttr).vertices e =
      hyperedges.getD e [] := by
  rcases Nat.lt_or_ge e hyperedges.length with h | h
  · rw [vertices_make _ _ _ _ h, List.getD_eq_getElem _ _ h]
  · rw [List.getD_eq_default _ _ h]
    exact slice_of_le h

theorem make_edges (hrows : Rows hyperedges vertexWeights hyperedgeWeights) (fixedAttr : List Int)
    (v : Nat) :
    (make hyperedges vertexWeights hyperedgeWeights fixedAttr).edges v =
      (List.range hyperedges.length).filter fun e => v ∈ hyperedges.getD e [] := by
  have hslice : (make hyperedges vertexWeights hyperedgeWeights fixedAttr).edges v =
      slice (flatten ((List.range vertexWeights.length).map (incidence hyperedges))) v := by
    unfold edges make
    rw [← hrows.length_eq, List.take_length]
  rw [hslice]
  rcases Nat.lt_or_ge v vertexWeights.length with hv | hv
  · rw [slice_flatten _ (by simpa using hv), List.getElem_map, List.getElem_range,
      incidence_eq _ hrows.nodup]
  · rw [slice_of_le (by simpa using hv)]
    symm
    apply List.filter_eq_nil_iff.mpr
    intro e he hmem
    have hrow : hyperedges.getD e [] ∈ hyperedges := by
      rw [List.getD_eq_getElem _ _ (List.mem_range.mp he)]
      exact List.getElem_mem _
    exact absurd (hrows.lt _ hrow v (of_decide_eq_true hmem)) (Nat.not_lt.mpr hv)

/-- The constructor builds both sides. -/
theorem Rows.simple (hrows : Rows hyperedges vertexWeights hyperedgeWeights)
    (fixedAttr : List Int) :
    (make hyperedges vertexWeights hyperedgeWeights fixedAttr).Simple := by
  have hrow : ∀ e, hyperedges.getD e [] = [] ∨ hyperedges.getD e [] ∈ hyperedges := by
    intro e
    rcases Nat.lt_or_ge e hyperedges.length with h | h
    · right
      rw [List.getD_eq_getElem _ _ h]
      exact List.getElem_mem h
    · left
      exact List.getD_eq_default _ _ h
  constructor
  · intro e
    rw [make_vertices]
    rcases hrow e with h | h
    · rw [h]
      exact List.nodup_nil
    · exact hrows.nodup _ h
  · intro v
    rw [make_edges hrows]
    exact List.nodup_range.filter _
  · intro e v hv
    rw [make_vertices] at hv
    rcases hrow e with h | h
    · rw [h] at hv
      cases hv
    · exact hrows.lt _ h v hv
  · intro v e he
    rw [make_edges hrows, List.mem_filter, List.mem_range, hrows.length_eq] at he
    exact he.1
  · intro v e
    rw [make_edges hrows, make_vertices, List.mem_filter, List.mem_range, decide_eq_true_eq]
    constructor
    · exact And.right
    · intro hv
      refine ⟨?_, hv⟩
      by_contra hge
      rw [List.getD_eq_default _ _ (Nat.not_lt.mp hge)] at hv
      cases hv

end Hypergraph

/-! ### Degrees and balance after a move -/

/-- One more in a block, one less in another. -/
def shift (less more b : Nat) : Int := (if b = more then 1 else 0) - if b = less then 1 else 0

/-- The vertices of a list that are in a block, one of which is in a block of its own. -/
theorem countP_update {vertices : List Nat} (hnodup : vertices.Nodup) {v : Nat}
    (hv : v ∈ vertices) (solution : Partitions) (toPid b : Nat) :
    (vertices.countP fun u => Function.update solution v toPid u = b) =
      ((vertices.erase v).countP fun u => solution u = b) + if toPid = b then 1 else 0 := by
  rw [(List.perm_cons_erase hv).countP_eq, List.countP_cons, Function.update_self]
  have hrest : ((vertices.erase v).countP fun u => Function.update solution v toPid u = b) =
      (vertices.erase v).countP fun u => solution u = b := by
    apply List.countP_congr
    intro u hu
    rw [Function.update_of_ne (hnodup.mem_erase_iff.mp hu).1]
  rw [hrest]
  simp

namespace Hypergraph

variable {H : Hypergraph d k} {solution : Partitions} {v toPid : Nat}

theorem netDegrees_update (hH : H.Simple) {e : Nat} (he : v ∈ H.vertices e) (b : Nat) :
    (H.netDegrees (Function.update solution v toPid) e b : Int) =
      H.netDegrees solution e b + shift (solution v) toPid b := by
  have hold := countP_update (hH.nodup_vertices e) he solution (solution v) b
  rw [Function.update_eq_self] at hold
  rw [H.netDegrees_eq, H.netDegrees_eq, countP_update (hH.nodup_vertices e) he, hold]
  unfold shift
  simp only [eq_comm (a := b)]
  push_cast
  abel

theorem netDegrees_update_of_notMem {e : Nat} (he : v ∉ H.vertices e) (b : Nat) :
    H.netDegrees (Function.update solution v toPid) e b = H.netDegrees solution e b := by
  rw [H.netDegrees_eq, H.netDegrees_eq]
  apply List.countP_congr
  intro u hu
  rw [Function.update_of_ne fun h : u = v => he (h ▸ hu)]

theorem blockBalance_update (solution : Partitions) (toPid : Nat) (hv : v < H.numVertices) :
    H.blockBalance (Function.update solution v toPid) =
      Function.update
        (Function.update (H.blockBalance solution) (solution v)
          (H.blockBalance solution (solution v) - H.vertexWeight v)) toPid
        (Function.update (H.blockBalance solution) (solution v)
          (H.blockBalance solution (solution v) - H.vertexWeight v) toPid + H.vertexWeight v) := by
  have hmove : ∀ b, H.blockBalance (Function.update solution v toPid) b =
      H.blockBalance solution b - (if solution v = b then H.vertexWeight v else 0) +
        if toPid = b then H.vertexWeight v else 0 := by
    intro b
    have hmem : v ∈ range H.numVertices := Finset.mem_range.mpr hv
    rw [H.blockBalance_eq, H.blockBalance_eq, ← Finset.add_sum_erase _ _ hmem,
      ← Finset.add_sum_erase _ (fun u => if solution u = b then H.vertexWeight u else 0) hmem,
      Function.update_self]
    have hrest : (∑ u ∈ (range H.numVertices).erase v,
        if Function.update solution v toPid u = b then H.vertexWeight u else 0) =
        ∑ u ∈ (range H.numVertices).erase v, if solution u = b then H.vertexWeight u else 0 := by
      apply Finset.sum_congr rfl
      intro u hu
      rw [Function.update_of_ne (Finset.ne_of_mem_erase hu)]
    rw [hrest]
    abel
  funext b
  rw [hmove]
  by_cases hto : b = toPid
  · subst hto
    rw [Function.update_self, if_pos rfl]
    by_cases hfrom : b = solution v
    · rw [hfrom, Function.update_self, if_pos rfl]
    · rw [Function.update_of_ne hfrom, if_neg (Ne.symm hfrom), sub_zero]
  · rw [Function.update_of_ne hto, if_neg (Ne.symm hto), add_zero]
    by_cases hfrom : b = solution v
    · rw [hfrom, Function.update_self, if_pos rfl]
    · rw [Function.update_of_ne hfrom, if_neg (Ne.symm hfrom), sub_zero]

end Hypergraph

namespace Refiner

variable {R : Refiner d k}

theorem foldl_shift {edges : List Nat} (hnodup : edges.Nodup) (less more : Nat)
    (netDegs : Nat → Nat → Int) (e b : Nat) :
    edges.foldl (fun degs e =>
      let taken := Function.update (degs e) less (degs e less - 1)
      Function.update degs e (Function.update taken more (taken more + 1))) netDegs e b =
      netDegs e b + if e ∈ edges then shift less more b else 0 := by
  induction edges generalizing netDegs with
  | nil => simp
  | cons e' edges ih =>
      obtain ⟨he', hedges⟩ := List.nodup_cons.mp hnodup
      rw [List.foldl_cons, ih hedges]
      by_cases he : e = e'
      · subst he
        rw [if_neg he', if_pos List.mem_cons_self, add_zero, Function.update_self]
        unfold shift
        by_cases hmore : b = more
        · subst hmore
          rw [Function.update_self]
          by_cases hless : b = less
          · subst hless
            rw [Function.update_self]
            simp
          · rw [Function.update_of_ne hless]
            simp [hless]
        · rw [Function.update_of_ne hmore]
          by_cases hless : b = less
          · subst hless
            rw [Function.update_self]
            simp [hmore, sub_eq_add_neg]
          · rw [Function.update_of_ne hless]
            simp [hmore, hless]
      · rw [Function.update_of_ne he]
        simp [he]

theorem shiftDegrees_apply (hH : R.hgraph.Simple) (v less more : Nat) (netDegs : Nat → Nat → Int)
    (e b : Nat) :
    R.shiftDegrees v less more netDegs e b =
      netDegs e b + if e ∈ R.hgraph.edges v then shift less more b else 0 :=
  foldl_shift (hH.nodup_edges v) less more netDegs e b

/-- The degrees of a solution, as the refiner keeps them. -/
def degreesOf (R : Refiner d k) (solution : Partitions) (e b : Nat) : Int :=
  R.hgraph.netDegrees solution e b

/-- What the refiner keeps beside the solution is what the evaluator computes from it. -/
structure Consistent (R : Refiner d k) (s : Refining d) : Prop where
  blockBalance : s.blockBalance = R.hgraph.blockBalance s.solution
  netDegs : s.netDegs = R.degreesOf s.solution

theorem degreesOf_update (hH : R.hgraph.Simple) (solution : Partitions) (v toPid : Nat) :
    R.degreesOf (Function.update solution v toPid) =
      R.shiftDegrees v (solution v) toPid (R.degreesOf solution) := by
  funext e b
  rw [shiftDegrees_apply hH]
  unfold degreesOf
  by_cases he : e ∈ R.hgraph.edges v
  · rw [if_pos he]
    exact Hypergraph.netDegrees_update hH ((hH.mem_edges v e).mp he) b
  · rw [if_neg he, add_zero,
      Hypergraph.netDegrees_update_of_notMem fun h => he ((hH.mem_edges v e).mpr h)]

/-! ### The gain is exact -/

/-- The blocks that a hyperedge connects. -/
def blocksOf (H : Hypergraph d k) (solution : Partitions) (e : Nat) : Finset Nat :=
  ((H.vertices e).map solution).toFinset

theorem mem_blocksOf {H : Hypergraph d k} {solution : Partitions} {e b : Nat} :
    b ∈ blocksOf H solution e ↔ ∃ u ∈ H.vertices e, solution u = b := by
  unfold blocksOf
  rw [List.mem_toFinset, List.mem_map]

theorem degreesOf_pos {solution : Partitions} {e b : Nat} :
    0 < R.degreesOf solution e b ↔ b ∈ blocksOf R.hgraph solution e := by
  unfold degreesOf
  rw [R.hgraph.netDegrees_eq, Int.natCast_pos, List.countP_pos_iff, mem_blocksOf]
  simp only [decide_eq_true_eq]

theorem connectivity_eq (hH : R.hgraph.Simple) {solution : Partitions}
    (hrange : ∀ v < R.hgraph.numVertices, solution v < R.numParts) (e : Nat) :
    R.connectivity (R.degreesOf solution) e = (blocksOf R.hgraph solution e).card := by
  have hfilter : ((List.range R.numParts).filter fun b =>
      decide (0 < R.degreesOf solution e b)).toFinset = blocksOf R.hgraph solution e := by
    ext b
    rw [List.mem_toFinset, List.mem_filter, List.mem_range, decide_eq_true_eq, degreesOf_pos]
    constructor
    · exact And.right
    · intro hb
      obtain ⟨u, hu, rfl⟩ := mem_blocksOf.mp hb
      exact ⟨hrange u (hH.vertex_lt e u hu), hb⟩
  unfold connectivity
  rw [← hfilter, List.toFinset_card_of_nodup (List.nodup_range.filter _)]

/-- The other vertices of a hyperedge in the block of a vertex. -/
theorem one_lt_degreesOf (hH : R.hgraph.Simple) (solution : Partitions) {e v : Nat}
    (hv : v ∈ R.hgraph.vertices e) :
    1 < R.degreesOf solution e (solution v) ↔
      ∃ u ∈ R.hgraph.vertices e, u ≠ v ∧ solution u = solution v := by
  have hcount := countP_update (hH.nodup_vertices e) hv solution (solution v) (solution v)
  rw [Function.update_eq_self, if_pos rfl] at hcount
  have hrest : 0 < ((R.hgraph.vertices e).erase v).countP (fun u => solution u = solution v) ↔
      ∃ u ∈ R.hgraph.vertices e, u ≠ v ∧ solution u = solution v := by
    rw [List.countP_pos_iff]
    constructor
    · rintro ⟨u, hu, hblock⟩
      obtain ⟨hne, hmem⟩ := (hH.nodup_vertices e).mem_erase_iff.mp hu
      exact ⟨u, hmem, hne, of_decide_eq_true hblock⟩
    · rintro ⟨u, hmem, hne, hblock⟩
      exact ⟨u, (hH.nodup_vertices e).mem_erase_iff.mpr ⟨hne, hmem⟩, decide_eq_true hblock⟩
  rw [← hrest]
  unfold degreesOf
  rw [R.hgraph.netDegrees_eq, hcount]
  omega

/-- A hyperedge of a vertex is cut if another vertex of it is in another block. -/
theorem isCut_iff_of_mem (solution : Partitions) {vertices : List Nat} {v : Nat}
    (hv : v ∈ vertices) :
    Hypergraph.isCut solution vertices = true ↔ ∃ u ∈ vertices, solution u ≠ solution v := by
  rw [Hypergraph.isCut_iff]
  constructor
  · rintro ⟨u, hu, w, hw, hne⟩
    by_cases huv : solution u = solution v
    · exact ⟨w, hw, fun h => hne (huv.trans h.symm)⟩
    · exact ⟨u, hu, huv⟩
  · rintro ⟨u, hu, hne⟩
    exact ⟨u, hu, v, hv, hne⟩

theorem isCut_update_of_notMem {solution : Partitions} {vertices : List Nat} {v toPid : Nat}
    (hv : v ∉ vertices) :
    Hypergraph.isCut (Function.update solution v toPid) vertices =
      Hypergraph.isCut solution vertices := by
  have hsame : ∀ u ∈ vertices, Function.update solution v toPid u = solution u := by
    intro u hu
    apply Function.update_of_ne
    rintro rfl
    exact hv hu
  rw [Bool.eq_iff_iff, Hypergraph.isCut_iff, Hypergraph.isCut_iff]
  constructor
  · rintro ⟨u, hu, w, hw, hne⟩
    rw [hsame u hu, hsame w hw] at hne
    exact ⟨u, hu, w, hw, hne⟩
  · rintro ⟨u, hu, w, hw, hne⟩
    refine ⟨u, hu, w, hw, ?_⟩
    rw [hsame u hu, hsame w hw]
    exact hne

/-- What a hyperedge costs under a solution. -/
def costOf (R : Refiner d k) (solution : Partitions) (e : Nat) : ℚ :=
  if Hypergraph.isCut solution (R.hgraph.vertices e) then R.hgraph.hyperedgeCost R.eWtFactors e
  else 0

theorem isCut_update_iff {solution : Partitions} {vertices : List Nat} {v : Nat} (hv : v ∈ vertices)
    (toPid : Nat) :
    Hypergraph.isCut (Function.update solution v toPid) vertices = true ↔
      ∃ u ∈ vertices, u ≠ v ∧ solution u ≠ toPid := by
  rw [isCut_iff_of_mem _ hv, Function.update_self]
  constructor
  · rintro ⟨u, hu, h⟩
    have huv : u ≠ v := by
      rintro rfl
      exact h (Function.update_self _ _ _)
    rw [Function.update_of_ne huv] at h
    exact ⟨u, hu, huv, h⟩
  · rintro ⟨u, hu, huv, h⟩
    refine ⟨u, hu, ?_⟩
    rw [Function.update_of_ne huv]
    exact h

/-- A hyperedge in one block is not cut. -/
theorem card_blocksOf_eq_one_iff {H : Hypergraph d k} {solution : Partitions} {e v : Nat}
    (hv : v ∈ H.vertices e) :
    (blocksOf H solution e).card = 1 ↔ ¬Hypergraph.isCut solution (H.vertices e) = true := by
  have hfrom : solution v ∈ blocksOf H solution e := mem_blocksOf.mpr ⟨v, hv, rfl⟩
  rw [isCut_iff_of_mem solution hv, Finset.card_eq_one]
  push Not
  constructor
  · rintro ⟨b, hb⟩ w hw
    have hw' : solution w ∈ blocksOf H solution e := mem_blocksOf.mpr ⟨w, hw, rfl⟩
    rw [hb, Finset.mem_singleton] at hw' hfrom
    exact hw'.trans hfrom.symm
  · intro hall
    refine ⟨solution v, Finset.eq_singleton_iff_unique_mem.mpr ⟨hfrom, fun b hb => ?_⟩⟩
    obtain ⟨w, hw, rfl⟩ := mem_blocksOf.mp hb
    exact hall w hw

/-- All vertices are in the block that the vertex leaves: the move cuts the hyperedge. -/
theorem opens_iff (hH : R.hgraph.Simple) {solution : Partitions} {e v toPid : Nat}
    (hv : v ∈ R.hgraph.vertices e) (hne : solution v ≠ toPid) :
    (blocksOf R.hgraph solution e).card = 1 ∧ 1 < R.degreesOf solution e (solution v) ↔
      ¬Hypergraph.isCut solution (R.hgraph.vertices e) = true ∧
        Hypergraph.isCut (Function.update solution v toPid) (R.hgraph.vertices e) = true := by
  rw [card_blocksOf_eq_one_iff hv, one_lt_degreesOf hH solution hv]
  refine and_congr_right fun huncut => ?_
  rw [isCut_update_iff hv]
  rw [isCut_iff_of_mem solution hv] at huncut
  push Not at huncut
  constructor
  · rintro ⟨u, hu, huv, hblock⟩
    exact ⟨u, hu, huv, hblock ▸ hne⟩
  · rintro ⟨u, hu, huv, -⟩
    exact ⟨u, hu, huv, huncut u hu⟩

/-- All other vertices are in the block that the vertex enters: the hyperedge is no longer cut. -/
theorem closes_iff (hH : R.hgraph.Simple) {solution : Partitions} {e v toPid : Nat}
    (hv : v ∈ R.hgraph.vertices e) (hne : solution v ≠ toPid) :
    ((blocksOf R.hgraph solution e).card = 2 ∧ R.degreesOf solution e (solution v) = 1 ∧
        0 < R.degreesOf solution e toPid) ↔
      Hypergraph.isCut solution (R.hgraph.vertices e) = true ∧
        ¬Hypergraph.isCut (Function.update solution v toPid) (R.hgraph.vertices e) = true := by
  have hfrom : solution v ∈ blocksOf R.hgraph solution e := mem_blocksOf.mpr ⟨v, hv, rfl⟩
  have hmany := one_lt_degreesOf hH solution hv
  have hpos : 0 < R.degreesOf solution e (solution v) := degreesOf_pos.mpr hfrom
  rw [isCut_iff_of_mem solution hv, isCut_update_iff hv]
  push Not
  constructor
  · rintro ⟨hcard, hone, hto⟩
    have hblocks : {solution v, toPid} = blocksOf R.hgraph solution e := by
      apply Finset.eq_of_subset_of_card_le
      · exact Finset.insert_subset hfrom (Finset.singleton_subset_iff.mpr (degreesOf_pos.mp hto))
      · rw [hcard, Finset.card_pair hne]
    obtain ⟨u, hu, hublock⟩ := mem_blocksOf.mp (degreesOf_pos.mp hto)
    refine ⟨⟨u, hu, fun h => hne (h.symm.trans hublock)⟩, fun w hw hwv => ?_⟩
    have hw' : solution w ∈ blocksOf R.hgraph solution e := mem_blocksOf.mpr ⟨w, hw, rfl⟩
    rw [← hblocks, Finset.mem_insert, Finset.mem_singleton] at hw'
    refine hw'.resolve_left fun hsame => ?_
    have := hmany.mpr ⟨w, hw, hwv, hsame⟩
    omega
  · rintro ⟨⟨u, hu, hdiff⟩, hrest⟩
    have huto : solution u = toPid := hrest u hu fun h => hdiff (h ▸ rfl)
    have hto : toPid ∈ blocksOf R.hgraph solution e := mem_blocksOf.mpr ⟨u, hu, huto⟩
    have hblocks : blocksOf R.hgraph solution e = {solution v, toPid} := by
      refine Finset.Subset.antisymm (fun b hb => ?_)
        (Finset.insert_subset hfrom (Finset.singleton_subset_iff.mpr hto))
      obtain ⟨w, hw, rfl⟩ := mem_blocksOf.mp hb
      rw [Finset.mem_insert, Finset.mem_singleton]
      by_cases hwv : w = v
      · exact Or.inl (by rw [hwv])
      · exact Or.inr (hrest w hw hwv)
    refine ⟨by rw [hblocks, Finset.card_pair hne], ?_, degreesOf_pos.mpr hto⟩
    by_contra hdeg
    obtain ⟨w, hw, hwv, hwblock⟩ := hmany.mp (by omega)
    exact hne (hwblock.symm.trans (hrest w hw hwv))

/-- The score of a hyperedge is the decrease of its cost. -/
theorem edgeScore_eq (hH : R.hgraph.Simple) {solution : Partitions}
    (hrange : ∀ v < R.hgraph.numVertices, solution v < R.numParts) {e v toPid : Nat}
    (hv : v ∈ R.hgraph.vertices e) (hne : solution v ≠ toPid) :
    R.edgeScore (R.degreesOf solution) (solution v) toPid e =
      R.costOf solution e - R.costOf (Function.update solution v toPid) e := by
  unfold edgeScore costOf
  rw [connectivity_eq hH hrange]
  split
  · rename_i h
    obtain ⟨huncut, hcut⟩ := (opens_iff hH hv hne).mp h
    rw [if_neg huncut, if_pos hcut, zero_sub]
  · rename_i hA
    split
    · rename_i h
      obtain ⟨hcut, huncut⟩ := (closes_iff hH hv hne).mp h
      rw [if_pos hcut, if_neg huncut, sub_zero]
    · -- the hyperedge stays cut, or stays uncut
      rename_i hB
      rw [opens_iff hH hv hne, not_and, not_imp_comm, not_not] at hA
      rw [closes_iff hH hv hne, not_and, not_not] at hB
      by_cases h : Hypergraph.isCut solution (R.hgraph.vertices e) = true
      · rw [if_pos h, if_pos (hB h), sub_self]
      · rw [if_neg h, if_neg (mt hA h), sub_self]

theorem cutCost_eq_sum (R : Refiner d k) (solution : Partitions) :
    R.hgraph.cutCost R.eWtFactors solution =
      ∑ e ∈ range R.hgraph.numHyperedges, R.costOf solution e :=
  R.hgraph.cutCost_eq_sum R.eWtFactors solution

/-- The gain that is computed from the degrees of a solution is the decrease of the cut cost. -/
theorem calculateVertexGain_exact (hH : R.hgraph.Simple) {solution : Partitions}
    (hrange : ∀ v < R.hgraph.numVertices, solution v < R.numParts) {v toPid : Nat}
    (hne : solution v ≠ toPid) :
    (R.calculateVertexGain (R.degreesOf solution) v (solution v) toPid).gain =
      R.hgraph.cutCost R.eWtFactors solution -
        R.hgraph.cutCost R.eWtFactors (Function.update solution v toPid) := by
  have hscore : ∀ e ∈ R.hgraph.edges v,
      R.edgeScore (R.degreesOf solution) (solution v) toPid e =
        R.costOf solution e - R.costOf (Function.update solution v toPid) e := fun e he =>
    edgeScore_eq hH hrange ((hH.mem_edges v e).mp he) hne
  calc (R.calculateVertexGain (R.degreesOf solution) v (solution v) toPid).gain
      = ((R.hgraph.edges v).map (R.edgeScore (R.degreesOf solution) (solution v) toPid)).sum :=
        if_neg hne
    _ = ((R.hgraph.edges v).map fun e =>
          R.costOf solution e - R.costOf (Function.update solution v toPid) e).sum := by
        rw [List.map_congr_left hscore]
    _ = ∑ e ∈ (R.hgraph.edges v).toFinset,
          (R.costOf solution e - R.costOf (Function.update solution v toPid) e) := by
        rw [List.sum_toFinset _ (hH.nodup_edges v)]
    _ = ∑ e ∈ range R.hgraph.numHyperedges,
          (R.costOf solution e - R.costOf (Function.update solution v toPid) e) := by
        apply Finset.sum_subset
        · intro e he
          exact Finset.mem_range.mpr (hH.edge_lt v e (List.mem_toFinset.mp he))
        · intro e _ he
          -- the vertex is not in the hyperedge, whose cost stays
          have hv : v ∉ R.hgraph.vertices e := fun h =>
            he (List.mem_toFinset.mpr ((hH.mem_edges v e).mpr h))
          unfold costOf
          rw [isCut_update_of_notMem hv, sub_self]
    _ = R.hgraph.cutCost R.eWtFactors solution -
          R.hgraph.cutCost R.eWtFactors (Function.update solution v toPid) := by
        rw [Finset.sum_sub_distrib, cutCost_eq_sum, cutCost_eq_sum]

end Refiner

end OpenRoad.Par
