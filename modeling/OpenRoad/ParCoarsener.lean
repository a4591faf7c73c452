import OpenRoad.ParHypergraph
import Mathlib.Data.List.Sort
import Mathlib.Order.Bounds.Basic

/-!
Contraction of a hypergraph along a clustering of its vertices. A hyperedge becomes the set of the
clusters of its vertices; hyperedges with the same clusters are merged, their weights added. The
hash values only choose which of the contracted hyperedges a new one is compared with.
-/

namespace OpenRoad.Par

open Finset

variable {d k : Nat}

/-! ### The contraction -/

/-- The contracted hyperedges so far, with the tables in which parallel ones are looked up. -/
structure Contracting (k : Nat) where
  hyperedges : List (List Nat)
  weights : List (Weights k)
  hashMap : BitVec 64 → Option Nat
  parallelHashMap : BitVec 64 → List Nat

/-- The set of the clusters of a hyperedge, in increasing order. -/
def clusters (clusterId : Nat → Nat) (vertices : List Nat) : List Nat :=
  (vertices.map clusterId).dedup.mergeSort (fun a b => decide (a ≤ b))

/-- The inner product of a contracted hyperedge with itself: products of `int`, summed in
`size_t`. -/
def hashValue (hyperedge : List Nat) : BitVec 64 :=
  hyperedge.foldl (fun hash c =>
    hash + (BitVec.ofNat 32 c * BitVec.ofNat 32 c).signExtend 64) 0

namespace Contracting

variable (C : Contracting k)

/-- The contracted hyperedge with these clusters, if it is found. -/
def parallelId (hyperedge : List Nat) (hashId : Nat) : Option Nat :=
  if C.hyperedges.getD hashId [] = hyperedge then some hashId
  else (C.parallelHashMap (hashValue hyperedge)).find? fun candidateId =>
    decide (C.hyperedges.getD candidateId [] = hyperedge)

/-- A new contracted hyperedge. -/
def push (hyperedge : List Nat) (weight : Weights k) : Contracting k :=
  { C with
    hyperedges := C.hyperedges ++ [hyperedge]
    weights := C.weights ++ [weight] }

/-- A hyperedge with its clusters and its weight. -/
def insert (hyperedge : List Nat) (weight : Weights k) : Contracting k :=
  let hash := hashValue hyperedge
  match C.hashMap hash with
  | none =>
      { C.push hyperedge weight with
        hashMap := Function.update C.hashMap hash (some C.hyperedges.length) }
  | some hashId =>
      match C.parallelId hyperedge hashId with
      | none =>
          { C.push hyperedge weight with
            parallelHashMap := Function.update C.parallelHashMap hash
              (C.parallelHashMap hash ++ [C.hyperedges.length]) }
      | some parallelId =>
          { C with weights := C.weights.modify parallelId fun w => w + weight }

end Contracting

section

variable (H : Hypergraph d k) (skip : Int) (clusterId : Nat → Nat)

/-- One hyperedge of the first step of `Contraction`. Hyperedges of one vertex, large ones and those
within one cluster are left out. -/
def contractHyperedge (C : Contracting k) (e : Nat) : Contracting k :=
  let vertices := H.vertices e
  if vertices.length ≤ 1 ∨ skip < vertices.length then C
  else
    let hyperedge := clusters clusterId vertices
    if hyperedge.length ≤ 1 then C else C.insert hyperedge (H.hyperedgeWeight e)

/-- The first step of `Contraction`, for the first `n` hyperedges. -/
def contractHyperedges : Nat → Contracting k
  | 0 => ⟨[], [], fun _ => none, fun _ => []⟩
  | n + 1 => contractHyperedge H skip clusterId (contractHyperedges n) n

/-- `Contraction`, without timing paths. -/
def contraction (vertexWeightsC : List (Weights d)) (fixedAttrC : List Int) : Hypergraph d k :=
  let C := contractHyperedges H skip clusterId H.numHyperedges
  .make C.hyperedges vertexWeightsC C.weights fixedAttrC

/-! ### The attributes of the clusters -/

/-- The summed weights of the vertices of each cluster. -/
def vertexWeightsC (numClusters : Nat) : List (Weights d) :=
  (List.range numClusters).map (H.blockBalance clusterId)

/-- The greatest fixed attribute of the vertices of each cluster, `-1` if there is none. -/
def fixedAttrC (numClusters : Nat) : List Int :=
  if H.fixedVertexFlag then
    (List.range numClusters).map ((List.range H.numVertices).foldl (fun attr v =>
      Function.update attr (clusterId v) (max (attr (clusterId v)) (H.fixed v))) fun _ => -1)
  else []

/-- The hypergraph of the clusters, with the attributes of `ClusterBasedGroupInfo`. -/
def groupVertices (numClusters : Nat) : Hypergraph d k :=
  contraction H skip clusterId (vertexWeightsC H clusterId numClusters)
    (fixedAttrC H clusterId numClusters)

end

/-! ### Clusters of one hyperedge -/

theorem mem_clusters {clusterId : Nat → Nat} {vertices : List Nat} {c : Nat} :
    c ∈ clusters clusterId vertices ↔ ∃ v ∈ vertices, clusterId v = c := by
  simp [clusters]

/-- A hyperedge is cut like its clusters. -/
theorem isCut_clusters (clusterId : Nat → Nat) (vertices : List Nat) (solution : Partitions) :
    Hypergraph.isCut solution (clusters clusterId vertices) =
      Hypergraph.isCut (solution ∘ clusterId) vertices := by
  rw [Bool.eq_iff_iff, Hypergraph.isCut_iff, Hypergraph.isCut_iff]
  simp only [mem_clusters, Function.comp_apply]
  constructor
  · rintro ⟨_, ⟨u, hu, rfl⟩, _, ⟨v, hv, rfl⟩, hne⟩
    exact ⟨u, hu, v, hv, hne⟩
  · rintro ⟨u, hu, v, hv, hne⟩
    exact ⟨_, ⟨u, hu, rfl⟩, _, ⟨v, hv, rfl⟩, hne⟩

theorem isCut_of_length_le_one {solution : Partitions} {vertices : List Nat}
    (h : vertices.length ≤ 1) : Hypergraph.isCut solution vertices = false := by
  match vertices with
  | [] => rfl
  | [v] => rfl

/-! ### The cut of the contracted hyperedges -/

namespace Contracting

/-- The summed weights of the contracted hyperedges that are cut. -/
def cutWeight (C : Contracting k) (solution : Partitions) : Weights k :=
  ∑ j ∈ range C.hyperedges.length,
    if Hypergraph.isCut solution (C.hyperedges.getD j []) then C.weights.getD j 0 else 0

theorem cutWeight_push (C : Contracting k) (hlength : C.weights.length = C.hyperedges.length)
    (hyperedge : List Nat) (weight : Weights k) (solution : Partitions) :
    (C.push hyperedge weight).cutWeight solution =
      C.cutWeight solution + if Hypergraph.isCut solution hyperedge then weight else 0 := by
  unfold cutWeight push
  dsimp only
  rw [List.length_append, List.length_singleton, sum_range_succ]
  congr 1
  · apply sum_congr rfl
    intro j hj
    have hlt := Finset.mem_range.mp hj
    rw [List.getD_append _ _ _ _ hlt, List.getD_append _ _ _ _ (hlength ▸ hlt)]
  · rw [List.getD_append_right _ _ _ _ (Nat.le_refl _), Nat.sub_self, ← hlength,
      List.getD_append_right _ _ _ _ (Nat.le_refl _), Nat.sub_self]
    rfl

/-- Adding to the weight of a contracted hyperedge adds it to the cut if that hyperedge is cut. -/
theorem cutWeight_modify (C : Contracting k) (hlength : C.weights.length = C.hyperedges.length)
    {i : Nat} (hi : i < C.hyperedges.length) (weight : Weights k) (solution : Partitions) :
    ({ C with weights := C.weights.modify i fun w => w + weight } : Contracting k).cutWeight
        solution =
      C.cutWeight solution +
        if Hypergraph.isCut solution (C.hyperedges.getD i []) then weight else 0 := by
  unfold cutWeight
  dsimp only
  have hadd : (if Hypergraph.isCut solution (C.hyperedges.getD i []) then weight else 0) =
      ∑ j ∈ range C.hyperedges.length, if j = i then
        (if Hypergraph.isCut solution (C.hyperedges.getD j []) then weight else 0) else 0 := by
    rw [sum_ite_eq' (range C.hyperedges.length) i, if_pos (Finset.mem_range.mpr hi)]
  rw [hadd, ← sum_add_distrib]
  apply sum_congr rfl
  intro j hj
  have hj' : j < C.weights.length := by
    rw [hlength]
    exact Finset.mem_range.mp hj
  have hweight : (C.weights.modify i fun w => w + weight).getD j 0 =
      if j = i then C.weights.getD j 0 + weight else C.weights.getD j 0 := by
    rw [List.getD_eq_getElem?_getD, List.getElem?_modify, List.getElem?_eq_getElem hj']
    by_cases heq : i = j
    · simp [heq, hj']
    · simp [heq, Ne.symm heq, hj']
  rw [hweight]
  by_cases heq : j = i
  · rw [if_pos heq, if_pos heq]
    split
    · rfl
    · rw [add_zero]
  · rw [if_neg heq, if_neg heq, add_zero]

theorem parallelId_cases {C : Contracting k} {hyperedge : List Nat} {hashId parallelId : Nat}
    (h : C.parallelId hyperedge hashId = some parallelId) :
    C.hyperedges.getD parallelId [] = hyperedge := by
  unfold Contracting.parallelId at h
  split at h
  · rename_i heq
    obtain rfl := Option.some.inj h
    exact heq
  · have hfound := List.find?_some h
    exact of_decide_eq_true hfound

/-- Inserting a hyperedge adds its weight to the cut exactly if it is cut, whatever the hash tables
hold. -/
theorem cutWeight_insert (C : Contracting k) (hlength : C.weights.length = C.hyperedges.length)
    {hyperedge : List Nat} (hne : hyperedge ≠ []) (weight : Weights k) :
    (C.insert hyperedge weight).weights.length = (C.insert hyperedge weight).hyperedges.length ∧
      ∀ solution, (C.insert hyperedge weight).cutWeight solution =
        C.cutWeight solution + if Hypergraph.isCut solution hyperedge then weight else 0 := by
  have hpush : (C.push hyperedge weight).weights.length =
      (C.push hyperedge weight).hyperedges.length := by
    simp [push, hlength]
  unfold insert
  dsimp only
  split
  · exact ⟨hpush, C.cutWeight_push hlength hyperedge weight⟩
  · split
    · exact ⟨hpush, C.cutWeight_push hlength hyperedge weight⟩
    · rename_i parallelId hparallel
      have heq := parallelId_cases hparallel
      have hlt : parallelId < C.hyperedges.length := by
        by_contra hge
        rw [List.getD_eq_default _ _ (Nat.le_of_not_lt hge)] at heq
        exact hne heq.symm
      constructor
      · rw [List.length_modify, hlength]
      · intro solution
        rw [C.cutWeight_modify hlength hlt weight solution, heq]

end Contracting

/-! ### The whole contraction -/

section

variable (H : Hypergraph d k) {skip : Int} (clusterId : Nat → Nat)

/-- The contracted hyperedges have the cut of the hyperedges they come from. -/
theorem contractHyperedges_cutWeight {n : Nat}
    (hskip : ∀ e < n, ((H.vertices e).length : Int) ≤ skip) :
    (contractHyperedges H skip clusterId n).weights.length =
        (contractHyperedges H skip clusterId n).hyperedges.length ∧
      ∀ solution, (contractHyperedges H skip clusterId n).cutWeight solution =
        ∑ e ∈ range n, if Hypergraph.isCut (solution ∘ clusterId) (H.vertices e) then
          H.hyperedgeWeight e else 0 := by
  induction n with
  | zero => exact ⟨rfl, fun _ => rfl⟩
  | succ n ih =>
      obtain ⟨hlength, hcut⟩ := ih fun e he => hskip e (Nat.lt_succ_of_lt he)
      have hkeep : ∀ solution : Partitions,
          Hypergraph.isCut (solution ∘ clusterId) (H.vertices n) = false →
          (contractHyperedges H skip clusterId n).cutWeight solution =
            ∑ e ∈ range (n + 1), if Hypergraph.isCut (solution ∘ clusterId) (H.vertices e) then
              H.hyperedgeWeight e else 0 := by
        intro solution huncut
        rw [sum_range_succ, hcut, huncut]
        simp
      rw [contractHyperedges, contractHyperedge]
      dsimp only
      split
      · rename_i hsmall
        have hone : (H.vertices n).length ≤ 1 := by
          rcases hsmall with hone | hlarge
          · exact hone
          · exact absurd (hskip n (Nat.lt_succ_self n)) (not_le.mpr hlarge)
        exact ⟨hlength, fun solution => hkeep solution (isCut_of_length_le_one hone)⟩
      · split
        · rename_i hone
          refine ⟨hlength, fun solution => hkeep solution ?_⟩
          rw [← isCut_clusters]
          exact isCut_of_length_le_one hone
        · rename_i htwo
          have hne : clusters clusterId (H.vertices n) ≠ [] := by
            intro hnil
            rw [hnil] at htwo
            exact htwo (Nat.zero_le 1)
          obtain ⟨hlength', hinsert⟩ := (contractHyperedges H skip clusterId n).cutWeight_insert
            hlength hne (H.hyperedgeWeight n)
          refine ⟨hlength', fun solution => ?_⟩
          rw [hinsert, hcut, sum_range_succ, isCut_clusters]

/-- A contraction cuts the weight that the hypergraph does under the assignment pulled back. -/
theorem contraction_cutWeight (hskip : ∀ e < H.numHyperedges, ((H.vertices e).length : Int) ≤ skip)
    (vertexWeights : List (Weights d)) (fixedAttr : List Int) (solution : Partitions) :
    (contraction H skip clusterId vertexWeights fixedAttr).cutWeight solution =
      H.cutWeight (solution ∘ clusterId) := by
  obtain ⟨hlength, hcut⟩ := contractHyperedges_cutWeight H clusterId hskip
  have hsum := hcut solution
  unfold Hypergraph.cutWeight
  rw [← hsum]
  unfold Contracting.cutWeight
  have hnum : (contraction H skip clusterId vertexWeights fixedAttr).numHyperedges =
      (contractHyperedges H skip clusterId H.numHyperedges).hyperedges.length := hlength
  rw [hnum]
  apply sum_congr rfl
  intro j hj
  have hlt := Finset.mem_range.mp hj
  have hvertices : (contraction H skip clusterId vertexWeights fixedAttr).vertices j =
      (contractHyperedges H skip clusterId H.numHyperedges).hyperedges.getD j [] := by
    rw [List.getD_eq_getElem _ _ hlt]
    exact Hypergraph.vertices_make _ _ _ _ hlt
  rw [hvertices]
  rfl

/-- The clusters weigh what their vertices do in every block. -/
theorem groupVertices_blockBalance {numClusters : Nat}
    (hcluster : ∀ v < H.numVertices, clusterId v < numClusters) (solution : Partitions)
    (b : Nat) :
    (groupVertices H skip clusterId numClusters).blockBalance solution b =
      H.blockBalance (solution ∘ clusterId) b := by
  rw [Hypergraph.blockBalance_eq, Hypergraph.blockBalance_eq]
  have hnum : (groupVertices H skip clusterId numClusters).numVertices = numClusters := by
    simp [groupVertices, contraction, Hypergraph.make, vertexWeightsC]
  have hweight : ∀ c < numClusters,
      (groupVertices H skip clusterId numClusters).vertexWeight c =
        ∑ v ∈ range H.numVertices, if clusterId v = c then H.vertexWeight v else 0 := by
    intro c hc
    rw [← Hypergraph.blockBalance_eq]
    simp [groupVertices, contraction, Hypergraph.make, Hypergraph.vertexWeight, vertexWeightsC, hc]
  calc ∑ c ∈ range (groupVertices H skip clusterId numClusters).numVertices,
        (if solution c = b then (groupVertices H skip clusterId numClusters).vertexWeight c else 0)
      = ∑ c ∈ range numClusters, ∑ v ∈ range H.numVertices,
          if clusterId v = c then (if solution c = b then H.vertexWeight v else 0) else 0 := by
        rw [hnum]
        apply sum_congr rfl
        intro c hc
        rw [hweight c (Finset.mem_range.mp hc)]
        split
        · rfl
        · simp
    _ = ∑ v ∈ range H.numVertices, ∑ c ∈ range numClusters,
          if clusterId v = c then (if solution c = b then H.vertexWeight v else 0) else 0 :=
        sum_comm
    _ = ∑ v ∈ range H.numVertices,
          if (solution ∘ clusterId) v = b then H.vertexWeight v else 0 := by
        apply sum_congr rfl
        intro v hv
        have hmem := Finset.mem_range.mpr (hcluster v (Finset.mem_range.mp hv))
        rw [sum_ite_eq (range numClusters) (clusterId v), if_pos hmem]
        rfl

theorem foldl_update_max (f : Nat → Nat) (attr : Nat → Int) (l : List Nat) (start : Nat → Int)
    (c : Nat) :
    IsGreatest (insert (start c) {x | ∃ v ∈ l, f v = c ∧ attr v = x})
      (l.foldl (fun acc v => Function.update acc (f v) (max (acc (f v)) (attr v))) start c) := by
  induction l generalizing start with
  | nil => simp [IsGreatest, upperBounds]
  | cons v l ih =>
      rw [List.foldl_cons]
      have hrest := ih (Function.update start (f v) (max (start (f v)) (attr v)))
      by_cases hc : f v = c
      · subst hc
        rw [Function.update_self] at hrest
        constructor
        · rcases hrest.1 with heq | ⟨u, hu, hcluster, hattr⟩
          · rcases max_choice (start (f v)) (attr v) with hmax | hmax
            · exact Or.inl (heq.trans hmax)
            · exact Or.inr ⟨v, List.mem_cons_self, rfl, (heq.trans hmax).symm⟩
          · exact Or.inr ⟨u, List.mem_cons_of_mem _ hu, hcluster, hattr⟩
        · have hmax := hrest.2 (Set.mem_insert _ _)
          rintro x (rfl | ⟨u, hu, hcluster, rfl⟩)
          · exact le_trans (le_max_left _ _) hmax
          · rcases List.mem_cons.mp hu with rfl | hu
            · exact le_trans (le_max_right _ _) hmax
            · exact hrest.2 (Or.inr ⟨u, hu, hcluster, rfl⟩)
      · rw [Function.update_of_ne (Ne.symm hc)] at hrest
        have hsame : {x | ∃ u ∈ v :: l, f u = c ∧ attr u = x} =
            {x | ∃ u ∈ l, f u = c ∧ attr u = x} := by
          ext x
          simp [hc]
        rw [hsame]
        exact hrest

/-- A cluster is fixed in the greatest block in which one of its vertices is. -/
theorem groupVertices_fixedBlock {numClusters c : Nat} (hc : c < numClusters) :
    IsGreatest (insert (-1) {x | ∃ v < H.numVertices, clusterId v = c ∧ H.fixedBlock v = x})
      ((groupVertices H skip clusterId numClusters).fixedBlock c) := by
  cases hflag : H.fixedVertexFlag with
  | true =>
      have hfixed : (groupVertices H skip clusterId numClusters).fixedBlock c =
          (List.range H.numVertices).foldl (fun attr v =>
            Function.update attr (clusterId v) (max (attr (clusterId v)) (H.fixed v)))
            (fun _ => -1) c := by
        simp [groupVertices, contraction, Hypergraph.make, Hypergraph.fixedBlock,
          Hypergraph.fixed, vertexWeightsC, fixedAttrC, hflag, hc]
      have hgreatest := foldl_update_max clusterId H.fixed (List.range H.numVertices)
        (fun _ => -1) c
      rw [← hfixed] at hgreatest
      simpa only [Hypergraph.fixedBlock, hflag, if_true, List.mem_range] using hgreatest
  | false =>
      have hne : numClusters ≠ 0 := Nat.ne_of_gt (Nat.zero_lt_of_lt hc)
      have hfixed : (groupVertices H skip clusterId numClusters).fixedBlock c = -1 := by
        simp [groupVertices, contraction, Hypergraph.make, Hypergraph.fixedBlock, vertexWeightsC,
          fixedAttrC, hflag, Ne.symm hne]
      rw [hfixed]
      constructor
      · exact Set.mem_insert _ _
      · rintro x (rfl | ⟨v, -, -, rfl⟩)
        · exact le_refl _
        · rw [Hypergraph.fixedBlock, hflag]
          exact le_refl _

/-- Fixed vertices that agree pass their block on to the cluster. -/
theorem groupVertices_fixedBlock_of_agree {numClusters v : Nat} (hv : v < H.numVertices)
    (hc : clusterId v < numClusters) (hfixed : -1 < H.fixedBlock v)
    (hagree : ∀ u < H.numVertices, clusterId u = clusterId v → -1 < H.fixedBlock u →
      H.fixedBlock u = H.fixedBlock v) :
    (groupVertices H skip clusterId numClusters).fixedBlock (clusterId v) = H.fixedBlock v := by
  have hgreatest : IsGreatest _ ((groupVertices H skip clusterId numClusters).fixedBlock
      (clusterId v)) := groupVertices_fixedBlock H clusterId hc
  obtain ⟨hmem, hupper⟩ := hgreatest
  have hle := hupper (Or.inr ⟨v, hv, rfl, rfl⟩)
  rcases hmem with heq | ⟨u, hu, hcluster, heq⟩
  · rw [heq] at hle
    omega
  · rw [← heq]
    apply hagree u hu hcluster
    rw [heq]
    omega

end

/-- The contracted hypergraph has the cut and the balance of the original under the assignment
pulled back. A cluster is fixed in the greatest block of its vertices, which is the block of each
fixed one if they agree. -/
theorem groupVertices_preserves (H : Hypergraph d k) (skip : Int) (clusterId : Nat → Nat)
    (numClusters : Nat) (hskip : ∀ e < H.numHyperedges, ((H.vertices e).length : Int) ≤ skip)
    (hcluster : ∀ v < H.numVertices, clusterId v < numClusters) (solution : Partitions) :
    (groupVertices H skip clusterId numClusters).cutWeight solution =
        H.cutWeight (solution ∘ clusterId) ∧
      (∀ eWtFactors, (groupVertices H skip clusterId numClusters).cutCost eWtFactors solution =
        H.cutCost eWtFactors (solution ∘ clusterId)) ∧
      (∀ b, (groupVertices H skip clusterId numClusters).blockBalance solution b =
        H.blockBalance (solution ∘ clusterId) b) ∧
      (∀ c < numClusters,
        IsGreatest (insert (-1) {x | ∃ v < H.numVertices, clusterId v = c ∧ H.fixedBlock v = x})
          ((groupVertices H skip clusterId numClusters).fixedBlock c)) ∧
      ∀ v < H.numVertices, -1 < H.fixedBlock v →
        (∀ u < H.numVertices, clusterId u = clusterId v → -1 < H.fixedBlock u →
          H.fixedBlock u = H.fixedBlock v) →
        (groupVertices H skip clusterId numClusters).fixedBlock (clusterId v) =
          H.fixedBlock v := by
  have hcut := contraction_cutWeight H clusterId hskip (vertexWeightsC H clusterId numClusters)
    (fixedAttrC H clusterId numClusters) solution
  refine ⟨hcut, ?_, groupVertices_blockBalance H clusterId hcluster solution,
    fun c hc => groupVertices_fixedBlock H clusterId hc, ?_⟩
  · intro eWtFactors
    rw [Hypergraph.cutCost_eq, Hypergraph.cutCost_eq]
    exact congrArg (fun w : Weights k => ∑ i, w i * eWtFactors i) hcut
  · intro v hv hfixed hagree
    exact groupVertices_fixedBlock_of_agree H clusterId hv (hcluster v hv) hfixed hagree

/-- A path of four vertices, of which the outer ones are fixed in different blocks. -/
def pathHypergraph : Hypergraph 1 1 :=
  .make [[0, 1], [1, 2], [2, 3], [2, 1]] [1, 1, 1, 1] [1, 2, 3, 4] [0, -1, -1, 1]

/-- The path is contracted to its two halves, with the parallel hyperedges between them merged. -/
theorem path_halves :
    (groupVertices pathHypergraph 2 (· / 2) 2).cutWeight id =
        pathHypergraph.cutWeight (id ∘ (· / 2)) ∧
      (groupVertices pathHypergraph 2 (· / 2) 2).cutCost 1 id =
        pathHypergraph.cutCost 1 (id ∘ (· / 2)) ∧
      (groupVertices pathHypergraph 2 (· / 2) 2).blockBalance id 0 =
        pathHypergraph.blockBalance (id ∘ (· / 2)) 0 ∧
      (groupVertices pathHypergraph 2 (· / 2) 2).fixedBlock 1 = pathHypergraph.fixedBlock 3 := by
  obtain ⟨hweight, hcost, hbalance, -, hfixed⟩ := groupVertices_preserves pathHypergraph 2 (· / 2)
    2 (by decide) (by decide) id
  exact ⟨hweight, hcost 1, hbalance 0, hfixed 3 (by decide) (by decide) (by decide)⟩

/-- A cluster with vertices that are fixed in different blocks agrees with one of them only. -/
theorem conflicting_fixed :
    (groupVertices pathHypergraph 2 (fun _ => 0) 1).fixedBlock 0 = 1 ∧
      pathHypergraph.fixedBlock 0 = 0 := by
  decide

theorem Contracting.mem_insert {C : Contracting k} {h h' : List Nat} {w : Weights k}
    (hmem : h' ∈ (C.insert h w).hyperedges) : h' ∈ C.hyperedges ∨ h' = h := by
  unfold Contracting.insert at hmem
  dsimp only at hmem
  split at hmem
  · simpa [push] using hmem
  · split at hmem
    · simpa [push] using hmem
    · exact Or.inl hmem

theorem length_contracted {H : Hypergraph d k} {skip : Int} {clusterId : Nat → Nat} {n : Nat}
    {h : List Nat} (hmem : h ∈ (contractHyperedges H skip clusterId n).hyperedges) :
    (h.length : Int) ≤ skip := by
  induction n with
  | zero => cases hmem
  | succ n ih =>
      rw [contractHyperedges, contractHyperedge] at hmem
      dsimp only at hmem
      split_ifs at hmem with hvertices
      · exact ih hmem
      · exact ih hmem
      · rcases Contracting.mem_insert hmem with hold | rfl
        · exact ih hold
        · have hle : (clusters clusterId (H.vertices n)).length ≤ (H.vertices n).length := by
            unfold clusters
            rw [List.length_mergeSort]
            exact (List.dedup_sublist _).length_le.trans_eq (List.length_map _)
          omega

/-! ### The hierarchy -/

/-- The limits of `LazyFirstChoice`, and the clusters that `VertexMatching` finds. -/
structure Coarsening (d k : Nat) where
  skip : Int
  thrVertices : Nat
  thrHyperedges : Nat
  adjDiffRatio : ℚ
  matching : Hypergraph d k → (Nat → Nat) × Nat

namespace Coarsening

variable (C : Coarsening d k)

def aggregate (H : Hypergraph d k) : Hypergraph d k :=
  groupVertices H C.skip (C.matching H).1 (C.matching H).2

/-- `LazyFirstChoice`: the coarser levels above `H`. -/
def lazyFirstChoice : Nat → Hypergraph d k → List (Hypergraph d k)
  | 0, _ => []
  | iters + 1, H =>
      let hg := C.aggregate H
      if H.numVertices = hg.numVertices then []
      else if hg.numVertices ≤ C.thrVertices ∨ hg.numHyperedges ≤ C.thrHyperedges ∨
          (H.numVertices - hg.numVertices : ℚ) ≤ H.numVertices * C.adjDiffRatio then [hg]
      else hg :: lazyFirstChoice iters hg

/-- `RefinePartition`: a solution is handed down level by level and refined on each. -/
def refinePartition (refiner : Hypergraph d k → Partitions → Partitions) :
    Hypergraph d k → List (Hypergraph d k) → Partitions → Partitions
  | _, [], solution => solution
  | H, hg :: levels, solution =>
      refiner H (refinePartition refiner hg levels solution ∘ (C.matching H).1)

/-- By how much each call of the refiner lowers the cost, summed up. -/
def gains (refiner : Hypergraph d k → Partitions → Partitions) (w : Weights k) :
    Hypergraph d k → List (Hypergraph d k) → Partitions → ℚ
  | _, [], _ => 0
  | H, hg :: levels, solution =>
      let handed := C.refinePartition refiner hg levels solution ∘ (C.matching H).1
      H.cutCost w handed - H.cutCost w (refiner H handed) + gains refiner w hg levels solution

/-- Contracted hyperedges are no larger than the others. -/
theorem aggregate_small {H : Hypergraph d k}
    (hskip : ∀ e < H.numHyperedges, ((H.vertices e).length : Int) ≤ C.skip) :
    ∀ e < (C.aggregate H).numHyperedges, (((C.aggregate H).vertices e).length : Int) ≤ C.skip := by
  intro e he
  have hlt := Nat.lt_of_lt_of_eq he (contractHyperedges_cutWeight H (C.matching H).1 hskip).1
  have heq : (C.aggregate H).vertices e = _ := Hypergraph.vertices_make _ _ _ _ hlt
  rw [heq]
  exact length_contracted (List.getElem_mem hlt)

/-- Only the calls of the refiner change the cost; handing a solution down does not. -/
theorem refinePartition_cutCost (refiner : Hypergraph d k → Partitions → Partitions)
    (w : Weights k) (iters : Nat) (H : Hypergraph d k)
    (hskip : ∀ e < H.numHyperedges, ((H.vertices e).length : Int) ≤ C.skip) (solution : Partitions) :
    H.cutCost w (C.refinePartition refiner H (C.lazyFirstChoice iters H) solution) =
      ((C.lazyFirstChoice iters H).getLastD H).cutCost w solution -
        C.gains refiner w H (C.lazyFirstChoice iters H) solution := by
  induction iters generalizing H with
  | zero => exact (sub_zero _).symm
  | succ iters ih =>
      have hdown : ∀ s, H.cutCost w (s ∘ (C.matching H).1) = (C.aggregate H).cutCost w s := by
        intro s
        rw [Hypergraph.cutCost_eq, Hypergraph.cutCost_eq, ← contraction_cutWeight H _ hskip]
        rfl
      rw [lazyFirstChoice]
      split_ifs
      · exact (sub_zero _).symm
      · rw [gains, hdown, gains, add_zero]
        exact (sub_sub_cancel _ _).symm
      · rw [gains, hdown, List.getLastD_cons, ih _ (C.aggregate_small hskip), refinePartition]
        grind

end Coarsening

def halving : Coarsening 1 1 := ⟨2, 2, 0, 0, fun H => ((· / 2), H.numVertices / 2)⟩

/-- The two halves of the path in one block. -/
theorem refinePartition_cutCost_path :
    let levels := halving.lazyFirstChoice 2 pathHypergraph
    pathHypergraph.cutCost 1 (halving.refinePartition (fun _ _ _ => 0) pathHypergraph levels id) =
      (levels.getLastD pathHypergraph).cutCost 1 id -
        halving.gains (fun _ _ _ => 0) 1 pathHypergraph levels id :=
  halving.refinePartition_cutCost _ 1 2 _ (by decide) id

end OpenRoad.Par
