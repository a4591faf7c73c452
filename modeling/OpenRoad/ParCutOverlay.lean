import OpenRoad.ParVertexGain
import OpenRoad.Run
import OpenRoad.ParGroupHonoured
import Mathlib.Data.Finset.Card

/-!
The cut-overlay clustering: the connected components of a hypergraph without the hyperedges that a
candidate solution cuts, found by breadth-first search from the vertices in their order. All
candidate solutions agree on a component.
-/

namespace OpenRoad.Par

variable {d k : Nat}

/-! ### The search -/

/-- The hyperedges that a candidate solution cuts: `hyperedge_mask`. -/
def hyperedgeMask (H : Hypergraph d k) (topSolutions : List Partitions) : Nat → Bool :=
  topSolutions.foldl (fun mask solution e =>
    mask e || Hypergraph.isCut solution (H.vertices e)) fun _ => false

/-- `vertex_cluster_vec`, with `none` for `-1`. -/
abbrev ClusterVec := Nat → Option Nat

/-- The clusters so far, and the block of the first vertex of each. -/
structure Overlay where
  clusterVec : ClusterVec
  initSolution : List Nat

/-- A neighbour that has no cluster gets one and joins the wavefront. -/
def visitNbr (clusterId : Nat) (acc : ClusterVec × List Nat) (v : Nat) : ClusterVec × List Nat :=
  if acc.1 v = none then (Function.update acc.1 v (some clusterId), acc.2 ++ [v]) else acc

section

variable (H : Hypergraph d k) (mask : Nat → Bool)

def visitEdge (clusterId : Nat) (acc : ClusterVec × List Nat) (e : Nat) : ClusterVec × List Nat :=
  if mask e = true then acc else (H.vertices e).foldl (visitNbr clusterId) acc

/-- `lambda_detect_connected_components`; `none` when the rounds do not suffice. -/
def detect (clusterId : Nat) : Nat → ClusterVec × List Nat → Option ClusterVec
  | _, (vec, []) => some vec
  | 0, (_, _ :: _) => none
  | fuel + 1, (vec, u :: wavefront) =>
      detect clusterId fuel ((H.edges u).foldl (visitEdge H mask clusterId) (vec, wavefront))

/-- One vertex of the loop that starts the searches. -/
def overlayVertex (best : Partitions) (o : Overlay) (v : Nat) : Option Overlay :=
  if (o.clusterVec v).isSome then some o
  else
    let clusterId := o.initSolution.length
    (detect H mask clusterId H.numVertices
      (Function.update o.clusterVec v (some clusterId), [v])).map fun vec =>
        ⟨vec, o.initSolution ++ [best v]⟩

end

/-- The clusters of `CutOverlayILPPart` and the initial solution, without those of the
contraction. -/
def cutOverlay (H : Hypergraph d k) (topSolutions : List Partitions) (best : Partitions) :
    Option Overlay :=
  Run.run (overlayVertex H (hyperedgeMask H topSolutions) best) ⟨fun _ => none, []⟩
    (List.range H.numVertices)

/-- `cluster_attr`: the vertices of each cluster. -/
def Overlay.clusterAttr (o : Overlay) (numVertices : Nat) : List (List Nat) :=
  (List.range o.initSolution.length).map fun id =>
    (List.range numVertices).filter fun v => o.clusterVec v = some id

/-! ### What is masked -/

variable {H : Hypergraph d k} {topSolutions : List Partitions} {mask : Nat → Bool}

theorem hyperedgeMask_iff (e : Nat) :
    hyperedgeMask H topSolutions e = true ↔
      ∃ solution ∈ topSolutions, Hypergraph.isCut solution (H.vertices e) = true := by
  unfold hyperedgeMask
  induction topSolutions using List.reverseRecOn with
  | nil => simp
  | append_singleton solutions solution ih =>
      rw [List.foldl_append, List.foldl_cons, List.foldl_nil, Bool.or_eq_true, ih]
      simp only [List.mem_append, List.mem_singleton, or_and_right, exists_or, exists_eq_left]

/-- All candidate solutions agree on the vertices of a hyperedge that is not masked. -/
theorem agree_of_not_masked {e : Nat} (he : hyperedgeMask H topSolutions e = false) {u v : Nat}
    (hu : u ∈ H.vertices e) (hv : v ∈ H.vertices e) :
    ∀ solution ∈ topSolutions, solution u = solution v := by
  intro solution hsolution
  by_contra hne
  have hcut : hyperedgeMask H topSolutions e = true :=
    (hyperedgeMask_iff e).mpr ⟨solution, hsolution, Hypergraph.isCut_iff.mpr ⟨u, hu, v, hv, hne⟩⟩
  rw [he] at hcut
  cases hcut

/-! ### One search -/

/-- The vertices without a cluster. -/
def unmarked (n : Nat) (vec : ClusterVec) : Finset Nat :=
  (Finset.range n).filter fun v => vec v = none

theorem unmarked_update {n v : Nat} {vec : ClusterVec} (c : Nat) :
    unmarked n (Function.update vec v (some c)) = (unmarked n vec).erase v := by
  ext u
  unfold unmarked
  rw [Finset.mem_erase, Finset.mem_filter, Finset.mem_filter]
  by_cases huv : u = v
  · simp [huv]
  · rw [Function.update_of_ne huv]
    simp [huv]

/-- Marking a vertex without a cluster adds this mark and keeps all others. -/
theorem update_eq_some {v : Nat} {vec : ClusterVec} (hnone : vec v = none) (clusterId w c : Nat) :
    Function.update vec v (some clusterId) w = some c ↔
      w = v ∧ c = clusterId ∨ vec w = some c := by
  by_cases hwv : w = v
  · rw [hwv, Function.update_self, hnone, Option.some_inj]
    exact ⟨fun h => Or.inl ⟨rfl, h.symm⟩, fun h => h.elim (fun h => h.2.symm) (fun h => by cases h)⟩
  · rw [Function.update_of_ne hwv]
    exact ⟨Or.inr, fun h => h.resolve_left fun h => hwv h.1⟩

/-- The vertex that is marked was one of those without a cluster. -/
theorem card_unmarked_update {n v : Nat} {vec : ClusterVec} (hnone : vec v = none) (hv : v < n)
    (c : Nat) : (unmarked n (Function.update vec v (some c))).card + 1 = (unmarked n vec).card := by
  rw [unmarked_update]
  exact Finset.card_erase_add_one (Finset.mem_filter.mpr ⟨Finset.mem_range.mpr hv, hnone⟩)

/-- The state of a search that began with the clusters `start`: marks are kept, new marks are those of
the search, the wavefront is marked, and a relation that holds along the hyperedges that are not
masked, an equivalence, holds within each cluster. -/
structure Searching (n clusterId : Nat) (R : Nat → Nat → Prop) (start : ClusterVec)
    (s : ClusterVec × List Nat) : Prop where
  kept : ∀ v c, start v = some c → s.1 v = some c
  marked : ∀ v c, s.1 v = some c → start v = some c ∨ c = clusterId ∧ v < n
  wavefront : ∀ v ∈ s.2, s.1 v = some clusterId
  related : ∀ u v c, s.1 u = some c → s.1 v = some c → R u v

section

variable {n clusterId : Nat} {R : Nat → Nat → Prop} {start : ClusterVec}
  {s : ClusterVec × List Nat}

/-- The rounds that a search needs at most: the wavefront, and the vertices it has not reached. -/
def searchSize (n : Nat) (s : ClusterVec × List Nat) : Nat := s.2.length + (unmarked n s.1).card

/-- A neighbour that is related to a vertex of the cluster. -/
theorem Searching.visitNbr (hR : Equivalence R) (h : Searching n clusterId R start s) {u v : Nat}
    (hu : s.1 u = some clusterId) (hv : v < n) (huv : R u v) :
    Searching n clusterId R start (visitNbr clusterId s v) ∧
      (visitNbr clusterId s v).1 u = some clusterId ∧
      searchSize n (visitNbr clusterId s v) = searchSize n s := by
  unfold Par.visitNbr
  split
  · rename_i hnone
    have hmark := update_eq_some hnone clusterId
    refine ⟨⟨?_, ?_, ?_, ?_⟩, ?_, ?_⟩
    · exact fun w c hw => (hmark w c).mpr (Or.inr (h.kept w c hw))
    · intro w c hw
      rcases (hmark w c).mp hw with ⟨rfl, rfl⟩ | hold
      · exact Or.inr ⟨rfl, hv⟩
      · exact h.marked w c hold
    · intro w hw
      apply (hmark w clusterId).mpr
      rcases List.mem_append.mp hw with hw | hw
      · exact Or.inr (h.wavefront w hw)
      · exact Or.inl ⟨List.mem_singleton.mp hw, rfl⟩
    · intro w w' c hw hw'
      rcases (hmark w c).mp hw with ⟨rfl, rfl⟩ | hold
      · rcases (hmark w' c).mp hw' with ⟨rfl, -⟩ | hold'
        · exact hR.refl _
        · exact hR.trans (hR.symm huv) (h.related u w' c hu hold')
      · rcases (hmark w' c).mp hw' with ⟨rfl, rfl⟩ | hold'
        · exact hR.trans (h.related w u c hold hu) huv
        · exact h.related w w' c hold hold'
    · exact (hmark u clusterId).mpr (Or.inr hu)
    · have hcard := card_unmarked_update hnone hv clusterId
      unfold searchSize
      dsimp only
      rw [List.length_append, List.length_singleton]
      omega
  · exact ⟨h, hu, rfl⟩

/-- The neighbours along the hyperedges of a vertex of the cluster. -/
theorem Searching.visitEdges (hR : Equivalence R) {u : Nat} {edges : List Nat}
    (hedges : ∀ e ∈ edges, mask e = false → ∀ v ∈ H.vertices e, v < n ∧ R u v)
    (h : Searching n clusterId R start s) (hu : s.1 u = some clusterId) :
    Searching n clusterId R start (edges.foldl (visitEdge H mask clusterId) s) ∧
      searchSize n (edges.foldl (visitEdge H mask clusterId) s) = searchSize n s := by
  have hvertices : ∀ (vertices : List Nat) (s : ClusterVec × List Nat),
      (∀ v ∈ vertices, v < n ∧ R u v) → Searching n clusterId R start s →
      s.1 u = some clusterId →
      Searching n clusterId R start (vertices.foldl (Par.visitNbr clusterId) s) ∧
        (vertices.foldl (Par.visitNbr clusterId) s).1 u = some clusterId ∧
        searchSize n (vertices.foldl (Par.visitNbr clusterId) s) = searchSize n s := by
    intro vertices
    induction vertices with
    | nil => exact fun s _ h hu => ⟨h, hu, rfl⟩
    | cons v vertices ih =>
        intro s hall h hu
        obtain ⟨hv, huv⟩ := hall v List.mem_cons_self
        obtain ⟨h', hu', hsize⟩ := h.visitNbr hR hu hv huv
        obtain ⟨h'', hu'', hsize'⟩ :=
          ih _ (fun w hw => hall w (List.mem_cons_of_mem _ hw)) h' hu'
        exact ⟨h'', hu'', hsize'.trans hsize⟩
  induction edges generalizing s with
  | nil => exact ⟨h, rfl⟩
  | cons e edges ih =>
      have hrest := fun e' he' => hedges e' (List.mem_cons_of_mem _ he')
      rw [List.foldl_cons]
      unfold visitEdge
      by_cases he : mask e = true
      · rw [if_pos he]
        exact ih hrest h hu
      · rw [if_neg he]
        obtain ⟨h', hu', hsize⟩ := hvertices (H.vertices e) s
          (hedges e List.mem_cons_self (Bool.eq_false_iff.mpr he)) h hu
        obtain ⟨h'', hsize'⟩ := ih hrest h' hu'
        exact ⟨h'', hsize'.trans hsize⟩

/-- The search ends within its size. -/
theorem Searching.detect (hR : Equivalence R)
    (hedges : ∀ u, ∀ e ∈ H.edges u, mask e = false → ∀ v ∈ H.vertices e, v < n ∧ R u v)
    (fuel : Nat) (h : Searching n clusterId R start s) (hfuel : searchSize n s ≤ fuel) :
    ∃ vec, detect H mask clusterId fuel s = some vec ∧
      Searching n clusterId R start (vec, []) := by
  induction fuel generalizing s with
  | zero =>
      obtain ⟨vec, wavefront⟩ := s
      cases wavefront with
      | nil => exact ⟨vec, by rw [Par.detect], h⟩
      | cons u wavefront =>
          unfold searchSize at hfuel
          rw [List.length_cons] at hfuel
          omega
  | succ fuel ih =>
      obtain ⟨vec, wavefront⟩ := s
      cases wavefront with
      | nil => exact ⟨vec, by rw [Par.detect], h⟩
      | cons u wavefront =>
          have hu : vec u = some clusterId := h.wavefront u List.mem_cons_self
          have hpopped : Searching n clusterId R start (vec, wavefront) :=
            ⟨h.kept, h.marked, fun v hv => h.wavefront v (List.mem_cons_of_mem _ hv), h.related⟩
          obtain ⟨h', hsize⟩ := hpopped.visitEdges hR (hedges u) hu
          rw [Par.detect]
          apply ih h'
          rw [hsize]
          unfold searchSize at hfuel ⊢
          rw [List.length_cons] at hfuel
          dsimp only at hfuel ⊢
          omega

end

/-! ### All searches -/

/-- The clusters so far: each is used, its vertices are related, and its block in the initial solution
is that of all its vertices. -/
structure OverlayOk (n : Nat) (R : Nat → Nat → Prop) (best : Partitions) (o : Overlay) : Prop where
  related : ∀ u v c, o.clusterVec u = some c → o.clusterVec v = some c → R u v
  inRange : ∀ v c, o.clusterVec v = some c → v < n ∧ c < o.initSolution.length
  used : ∀ c < o.initSolution.length, ∃ v, o.clusterVec v = some c
  initial : ∀ v c, o.clusterVec v = some c → o.initSolution[c]? = some (best v)

/-- A search begins with a vertex without a cluster, and a new cluster of it alone. -/
theorem OverlayOk.begin {R : Nat → Nat → Prop} (hR : Equivalence R) {n : Nat} {best : Partitions}
    {o : Overlay} (ho : OverlayOk n R best o) {v : Nat} (hv : v < n) (hnone : o.clusterVec v = none) :
    Searching n o.initSolution.length R o.clusterVec
        (Function.update o.clusterVec v (some o.initSolution.length), [v]) ∧
      searchSize n (Function.update o.clusterVec v (some o.initSolution.length), [v]) ≤ n := by
  have hmark := update_eq_some hnone o.initSolution.length
  constructor
  · refine ⟨fun w c hw => (hmark w c).mpr (Or.inr hw), fun w c hw => ?_, fun w hw => ?_,
      fun w w' c hw hw' => ?_⟩
    · rcases (hmark w c).mp hw with ⟨rfl, rfl⟩ | hold
      · exact Or.inr ⟨rfl, hv⟩
      · exact Or.inl hold
    · exact (hmark w _).mpr (Or.inl ⟨List.mem_singleton.mp hw, rfl⟩)
    · rcases (hmark w c).mp hw with ⟨rfl, hc⟩ | hold
      · rcases (hmark w' c).mp hw' with ⟨rfl, -⟩ | hold'
        · exact hR.refl _
        · have := (ho.inRange w' c hold').2
          omega
      · rcases (hmark w' c).mp hw' with ⟨rfl, hc⟩ | hold'
        · have := (ho.inRange w c hold).2
          omega
        · exact ho.related w w' c hold hold'
  · have hcard := card_unmarked_update hnone hv o.initSolution.length
    have hle : (unmarked n o.clusterVec).card ≤ n :=
      (Finset.card_filter_le _ _).trans (le_of_eq (Finset.card_range _))
    unfold searchSize
    dsimp only
    rw [List.length_singleton]
    omega

/-- The cluster of a search that is done is booked with the block of its first vertex. -/
theorem OverlayOk.book {R : Nat → Nat → Prop} {n : Nat} {best : Partitions}
    (hbest : ∀ u v, R u v → best u = best v) {o : Overlay} (ho : OverlayOk n R best o)
    {vec : ClusterVec} {wavefront : List Nat}
    (hdone : Searching n o.initSolution.length R o.clusterVec (vec, wavefront)) {v : Nat}
    (hv : vec v = some o.initSolution.length) :
    OverlayOk n R best ⟨vec, o.initSolution ++ [best v]⟩ := by
  refine ⟨hdone.related, fun w c hw => ?_, fun c hc => ?_, fun w c hw => ?_⟩
  · rw [List.length_append, List.length_singleton]
    rcases hdone.marked w c hw with hold | ⟨rfl, hwn⟩
    · have := ho.inRange w c hold
      omega
    · omega
  · rw [List.length_append, List.length_singleton] at hc
    by_cases hlast : c = o.initSolution.length
    · exact ⟨v, hlast ▸ hv⟩
    · obtain ⟨w, hw⟩ := ho.used c (by omega)
      exact ⟨w, hdone.kept w c hw⟩
  · dsimp only
    rcases hdone.marked w c hw with hold | ⟨rfl, -⟩
    · rw [List.getElem?_append_left (ho.inRange w c hold).2]
      exact ho.initial w c hold
    · rw [List.getElem?_append_right (le_refl _), Nat.sub_self, List.getElem?_cons_zero,
        hbest w v (hdone.related w v _ hw hv)]

theorem overlayVertex_spec {R : Nat → Nat → Prop} (hR : Equivalence R) {best : Partitions}
    (hbest : ∀ u v, R u v → best u = best v)
    (hedges : ∀ u, ∀ e ∈ H.edges u, mask e = false →
      ∀ v ∈ H.vertices e, v < H.numVertices ∧ R u v)
    {o : Overlay} (ho : OverlayOk H.numVertices R best o) {v : Nat} (hv : v < H.numVertices) :
    ∃ o', overlayVertex H mask best o v = some o' ∧ OverlayOk H.numVertices R best o' ∧
      (o'.clusterVec v).isSome ∧ ∀ w, (o.clusterVec w).isSome → (o'.clusterVec w).isSome := by
  unfold overlayVertex
  split
  · rename_i hsome
    exact ⟨o, rfl, ho, hsome, fun _ h => h⟩
  · rename_i hnone
    rw [Option.not_isSome_iff_eq_none] at hnone
    obtain ⟨hstart, hsize⟩ := ho.begin hR hv hnone
    obtain ⟨vec, hdetect, hdone⟩ := hstart.detect hR hedges H.numVertices hsize
    -- the same search, as one that began with the mark of the vertex
    have hvmarked : vec v = some o.initSolution.length := by
      have hstart' : Searching H.numVertices o.initSolution.length R
          (Function.update o.clusterVec v (some o.initSolution.length))
          (Function.update o.clusterVec v (some o.initSolution.length), [v]) :=
        ⟨fun _ _ h => h, fun _ _ h => Or.inl h, hstart.wavefront, hstart.related⟩
      obtain ⟨vec', hdetect', hdone'⟩ := hstart'.detect hR hedges H.numVertices hsize
      obtain rfl := Option.some.inj (hdetect.symm.trans hdetect')
      exact hdone'.kept v _ (Function.update_self ..)
    refine ⟨⟨vec, o.initSolution ++ [best v]⟩, congrArg (Option.map _) hdetect,
      ho.book hbest hdone hvmarked, ?_, fun w hw => ?_⟩
    · dsimp only
      rw [hvmarked]
      rfl
    · obtain ⟨c, hc⟩ := Option.isSome_iff_exists.mp hw
      have hw' : vec w = some c := hdone.kept w c hc
      dsimp only
      rw [hw']
      rfl

/-- All candidate solutions agree on two vertices. -/
def Agree (topSolutions : List Partitions) (u v : Nat) : Prop :=
  ∀ solution ∈ topSolutions, solution u = solution v

theorem agree_equivalence (topSolutions : List Partitions) : Equivalence (Agree topSolutions) where
  refl _ _ _ := rfl
  symm h solution hsolution := (h solution hsolution).symm
  trans h h' solution hsolution := (h solution hsolution).trans (h' solution hsolution)

/-- The searches end, and give every vertex a cluster. -/
theorem cutOverlay_spec (hH : H.Simple) {best : Partitions} (hbest : best ∈ topSolutions) :
    ∃ o, cutOverlay H topSolutions best = some o ∧
      OverlayOk H.numVertices (Agree topSolutions) best o ∧
      ∀ v < H.numVertices, (o.clusterVec v).isSome := by
  have hR := agree_equivalence topSolutions
  have hedges : ∀ u, ∀ e ∈ H.edges u, hyperedgeMask H topSolutions e = false →
      ∀ v ∈ H.vertices e, v < H.numVertices ∧ Agree topSolutions u v := by
    intro u e he hmask v hv
    exact ⟨hH.vertex_lt e v hv, agree_of_not_masked hmask ((hH.mem_edges u e).mp he) hv⟩
  have hstep : ∀ v vs o, (OverlayOk H.numVertices (Agree topSolutions) best o ∧
      (∀ w < H.numVertices, w ∈ v :: vs ∨ (o.clusterVec w).isSome) ∧
        ∀ w ∈ v :: vs, w < H.numVertices) →
      ∃ o', overlayVertex H (hyperedgeMask H topSolutions) best o v = some o' ∧
        OverlayOk H.numVertices (Agree topSolutions) best o' ∧
        (∀ w < H.numVertices, w ∈ vs ∨ (o'.clusterVec w).isSome) ∧
          ∀ w ∈ vs, w < H.numVertices := by
    rintro v vs o ⟨ho, hrest, hlt⟩
    obtain ⟨o', hrun, ho', hv, hkept⟩ := overlayVertex_spec hR
      (fun u w h => h best hbest) hedges ho (hlt v List.mem_cons_self)
    refine ⟨o', hrun, ho', fun w hw => ?_, fun w hw => hlt w (List.mem_cons_of_mem _ hw)⟩
    rcases hrest w hw with hmem | hsome
    · rcases List.mem_cons.mp hmem with rfl | hmem
      · exact Or.inr hv
      · exact Or.inl hmem
    · exact Or.inr (hkept w hsome)
  have hstart : OverlayOk H.numVertices (Agree topSolutions) best ⟨fun _ => none, []⟩ :=
    ⟨fun _ _ _ h => (nomatch h), fun _ _ h => (nomatch h), fun c h => absurd h (Nat.not_lt_zero c),
      fun _ _ h => (nomatch h)⟩
  obtain ⟨o, hrun, ho, hall, -⟩ := Run.run_total
    (P := fun vs o => OverlayOk H.numVertices (Agree topSolutions) best o ∧
      (∀ w < H.numVertices, w ∈ vs ∨ (o.clusterVec w).isSome) ∧ ∀ w ∈ vs, w < H.numVertices)
    hstep ⟨fun _ => none, []⟩ (List.range H.numVertices)
    ⟨hstart, fun w hw => Or.inl (List.mem_range.mpr hw), fun w hw => List.mem_range.mp hw⟩
  exact ⟨o, hrun, ho, fun v hv => (hall v hv).resolve_left List.not_mem_nil⟩

end OpenRoad.Par

/-!
The numbers of the overlay clusters after the contraction. The groups of fixed vertices are numbered
first, so that a cluster with fixed vertices takes the number of such a group, and the others follow.
The initial solution is still indexed by the numbers from before.
-/

namespace OpenRoad.Par

open Clustering

variable {d k : Nat}

/-! ### The numbers of the clusters -/

/-- The clusters of the fixed vertices alone. -/
def fixedClustering (H : Hypergraph d k) (numParts : Nat) : Clustering :=
  ofGroups (fixedGroups H numParts)

namespace Overlay

section

variable (o : Overlay) (H : Hypergraph d k) (numParts : Nat)

/-- The vertices of a cluster. -/
def cluster (j : Nat) : List Nat :=
  (List.range H.numVertices).filter fun v => o.clusterVec v = some j

/-- The greatest number of a group of fixed vertices that the cluster meets, `-1` without one. -/
def fixedNumber (j : Nat) : Int :=
  curClusterId (fixedClustering H numParts).clusterIds (o.cluster H j)

/-- The number of a cluster after the contraction. -/
def newNumber (j : Nat) : Int :=
  if o.fixedNumber H numParts j = -1 then
    (fixedClustering H numParts).clusterId +
      ((List.range j).countP fun i => o.fixedNumber H numParts i = -1 : Nat)
  else o.fixedNumber H numParts j

/-- The cluster ids of the contraction. -/
def clusteredIds : Nat → Int :=
  (clusterBasedGroupInfo H numParts (o.clusterAttr H.numVertices)).clusterIds

end

variable {o : Overlay} {H : Hypergraph d k} {numParts : Nat}

theorem mem_cluster {j v : Nat} :
    v ∈ o.cluster H j ↔ v < H.numVertices ∧ o.clusterVec v = some j := by
  unfold cluster
  rw [List.mem_filter, List.mem_range, decide_eq_true_eq]

theorem curClusterId_congr {ids ids' : Nat → Int} {group : List Nat}
    (h : ∀ v ∈ group, ids v = ids' v) : curClusterId ids group = curClusterId ids' group := by
  unfold curClusterId
  apply List.foldl_ext
  intro cur v hv
  rw [h v hv]

/-- The first clusters after the groups of fixed vertices: theirs are the new numbers, all other
vertices are as the fixed groups left them. -/
theorem ofGroups_clusters (o : Overlay) (H : Hypergraph d k) (numParts j : Nat) :
    (∀ i < j, ∀ v ∈ o.cluster H i, (ofGroups (fixedGroups H numParts ++
        (List.range j).map (o.cluster H))).clusterIds v = o.newNumber H numParts i) ∧
      (∀ v, (∀ i < j, v ∉ o.cluster H i) → (ofGroups (fixedGroups H numParts ++
        (List.range j).map (o.cluster H))).clusterIds v =
          (fixedClustering H numParts).clusterIds v) ∧
      (ofGroups (fixedGroups H numParts ++ (List.range j).map (o.cluster H))).clusterId =
        (fixedClustering H numParts).clusterId +
          (List.range j).countP fun i => o.fixedNumber H numParts i = -1 := by
  induction j with
  | zero =>
      rw [List.range_zero, List.map_nil, List.append_nil]
      exact ⟨fun i hi => absurd hi (Nat.not_lt_zero i), fun _ _ => rfl, rfl⟩
  | succ j ih =>
      obtain ⟨hearlier, hother, hcount⟩ := ih
      rw [List.range_succ, List.map_append, ← List.append_assoc, List.map_singleton,
        ofGroups_append_singleton]
      -- the clusters are disjoint, so the ids in the next one are those of the fixed groups
      have hdisjoint : ∀ i < j, ∀ v ∈ o.cluster H j, v ∉ o.cluster H i := by
        intro i hi v hv hvi
        have hij := (mem_cluster.mp hv).2.symm.trans (mem_cluster.mp hvi).2
        have := Option.some.inj hij
        omega
      have hcur : curClusterId (ofGroups (fixedGroups H numParts ++
          (List.range j).map (o.cluster H))).clusterIds (o.cluster H j) =
            o.fixedNumber H numParts j :=
        curClusterId_congr fun v hv => hother v fun i hi => hdisjoint i hi v hv
      obtain ⟨c, hc, hstep, hnext⟩ : ∃ c : Int, c = o.newNumber H numParts j ∧
          ((ofGroups (fixedGroups H numParts ++ (List.range j).map (o.cluster H))).addGroup
            (o.cluster H j)).clusterIds = assign (ofGroups (fixedGroups H numParts ++
              (List.range j).map (o.cluster H))).clusterIds (o.cluster H j) c ∧
          ((ofGroups (fixedGroups H numParts ++ (List.range j).map (o.cluster H))).addGroup
            (o.cluster H j)).clusterId = (ofGroups (fixedGroups H numParts ++
              (List.range j).map (o.cluster H))).clusterId +
              if o.fixedNumber H numParts j = -1 then 1 else 0 := by
        unfold addGroup newNumber
        dsimp only
        rw [hcur]
        split
        · exact ⟨_, by rw [hcount, Nat.cast_add], rfl, rfl⟩
        · exact ⟨_, rfl, rfl, rfl⟩
      refine ⟨fun i hi v hv => ?_, fun v hv => ?_, ?_⟩
      · rw [hstep, assign_apply]
        by_cases hij : i = j
        · rw [if_pos (hij ▸ hv), hc, hij]
        · have hlt : i < j := by omega
          rw [if_neg fun h => hdisjoint i hlt v h hv]
          exact hearlier i hlt v hv
      · rw [hstep, assign_apply, if_neg (hv j (Nat.lt_succ_self j))]
        exact hother v fun i hi => hv i (Nat.lt_succ_of_lt hi)
      · rw [hnext, hcount, List.countP_append, List.countP_singleton, Nat.add_assoc]
        simp only [decide_eq_true_eq]

/-- A vertex has the new number of its cluster. -/
theorem clusteredIds_eq {v c : Nat} (hv : v < H.numVertices) (hc : o.clusterVec v = some c)
    (hlt : c < o.initSolution.length) :
    o.clusteredIds H numParts v = o.newNumber H numParts c := by
  have hmem : v ∈ o.cluster H c := mem_cluster.mpr ⟨hv, hc⟩
  have hgroups : o.clusterAttr H.numVertices =
      (List.range o.initSolution.length).map (o.cluster H) := rfl
  have hcovered : GroupLinks.Covered (fixedGroups H numParts ++ o.clusterAttr H.numVertices) v :=
    ⟨o.cluster H c, List.mem_append_right _
      (hgroups ▸ List.mem_map.mpr ⟨c, List.mem_range.mpr hlt, rfl⟩), hmem⟩
  unfold clusteredIds
  rw [clusterBasedGroupInfo_ids hv, final_of_covered hcovered, hgroups]
  exact (ofGroups_clusters o H numParts o.initSolution.length).1 c hlt v hmem

/-- Without fixed vertices the clusters keep their numbers. -/
theorem newNumber_of_free (hfree : ∀ v < H.numVertices, H.fixed v = -1) (j : Nat) :
    o.newNumber H numParts j = j := by
  have hnone : fixedGroups H numParts = [] := by
    apply List.eq_nil_iff_forall_not_mem.mpr
    intro g hg
    obtain ⟨hne, b, -, rfl⟩ := mem_fixedGroups.mp hg
    apply hne
    apply List.filter_eq_nil_iff.mpr
    intro v hv
    rw [decide_eq_true_eq, hfree v (List.mem_range.mp hv)]
    omega
  have hstart : fixedClustering H numParts = start := by
    unfold fixedClustering
    rw [hnone]
    rfl
  have hall : ∀ i, o.fixedNumber H numParts i = -1 := by
    intro i
    unfold fixedNumber
    rw [hstart]
    obtain ⟨-, -, hcase⟩ := curClusterId_spec start.clusterIds (o.cluster H i)
    rcases hcase with hnone | ⟨v, -, hv⟩
    · exact hnone
    · exact hv.symm
  unfold newNumber
  rw [if_pos (hall j), hstart]
  simp [hall, start]

end Overlay

/-! ### The claim of the overlay -/

/-- All candidate solutions agree on each cluster of the contraction, and the initial solution, read
through the map to the clusters, is the best candidate. -/
structure OverlayKeeps (H : Hypergraph d k) (numParts : Nat) (topSolutions : List Partitions)
    (best : Partitions) (o : Overlay) : Prop where
  together : ∀ u < H.numVertices, ∀ v < H.numVertices,
    o.clusteredIds H numParts u = o.clusteredIds H numParts v → Agree topSolutions u v
  initial : ∀ v < H.numVertices,
    o.initSolution[(o.clusteredIds H numParts v).toNat]? = some (best v)

/-- All candidate solutions agree on clusters that get one number, and the cluster that had the new
number of another one is in the block of that one in the initial solution. -/
structure RenumberedAlike (H : Hypergraph d k) (numParts : Nat) (topSolutions : List Partitions)
    (o : Overlay) : Prop where
  merged : ∀ i j u v, o.clusterVec u = some i → o.clusterVec v = some j →
    o.newNumber H numParts i = o.newNumber H numParts j → Agree topSolutions u v
  same : ∀ j < o.initSolution.length,
    o.initSolution[(o.newNumber H numParts j).toNat]? = o.initSolution[j]?

theorem cutOverlay_keeps_iff {H : Hypergraph d k} (hH : H.Simple) (numParts : Nat)
    {topSolutions : List Partitions} {best : Partitions} (hbest : best ∈ topSolutions) :
    ∃ o, cutOverlay H topSolutions best = some o ∧
      (OverlayKeeps H numParts topSolutions best o ↔ RenumberedAlike H numParts topSolutions o) ∧
      ((∀ v < H.numVertices, H.fixed v = -1) → OverlayKeeps H numParts topSolutions best o) := by
  obtain ⟨o, hrun, ho, hall⟩ := cutOverlay_spec hH hbest
  have hids : ∀ v < H.numVertices, ∃ c, o.clusterVec v = some c ∧ c < o.initSolution.length ∧
      o.clusteredIds H numParts v = o.newNumber H numParts c := by
    intro v hv
    obtain ⟨c, hc⟩ := Option.isSome_iff_exists.mp (hall v hv)
    have hlt := (ho.inRange v c hc).2
    exact ⟨c, hc, hlt, Overlay.clusteredIds_eq hv hc hlt⟩
  have hiff : OverlayKeeps H numParts topSolutions best o ↔
      RenumberedAlike H numParts topSolutions o := by
    constructor
    · intro h
      refine ⟨fun i j u v hu hv heq => ?_, fun j hj => ?_⟩
      · obtain ⟨hun, hi⟩ := ho.inRange u i hu
        obtain ⟨hvn, hj⟩ := ho.inRange v j hv
        apply h.together u hun v hvn
        rw [Overlay.clusteredIds_eq hun hu hi, Overlay.clusteredIds_eq hvn hv hj, heq]
      · obtain ⟨v, hv⟩ := ho.used j hj
        have hvn := (ho.inRange v j hv).1
        rw [← Overlay.clusteredIds_eq hvn hv hj, h.initial v hvn, ho.initial v j hv]
    · intro h
      refine ⟨fun u hu v hv heq => ?_, fun v hv => ?_⟩
      · obtain ⟨i, hi, -, hui⟩ := hids u hu
        obtain ⟨j, hj, -, hvj⟩ := hids v hv
        exact h.merged i j u v hi hj (hui.symm.trans (heq.trans hvj))
      · obtain ⟨c, hc, hlt, hvc⟩ := hids v hv
        rw [hvc, h.same c hlt, ho.initial v c hc]
  refine ⟨o, hrun, hiff, fun hfree => hiff.mpr ⟨fun i j u v hu hv heq => ?_, fun j _ => ?_⟩⟩
  · rw [Overlay.newNumber_of_free hfree, Overlay.newNumber_of_free hfree] at heq
    obtain rfl : i = j := by omega
    exact ho.related u v i hu hv
  · rw [Overlay.newNumber_of_free hfree, Int.toNat_natCast]

/-- Three vertices on a path, of which only the last one is fixed, in block 1. -/
def fixedLast : Hypergraph 1 1 := .make [[0, 1], [1, 2]] [1, 1, 1] [1, 1] [-1, -1, 1]

theorem fixedLast_keeps_iff :
    ∃ o, cutOverlay fixedLast [fun v => if v = 0 then 0 else 1] (fun v => if v = 0 then 0 else 1) =
        some o ∧
      (OverlayKeeps fixedLast 2 [fun v => if v = 0 then 0 else 1] (fun v => if v = 0 then 0 else 1)
          o ↔ RenumberedAlike fixedLast 2 [fun v => if v = 0 then 0 else 1] o) ∧
      ((∀ v < fixedLast.numVertices, fixedLast.fixed v = -1) → OverlayKeeps fixedLast 2
        [fun v => if v = 0 then 0 else 1] (fun v => if v = 0 then 0 else 1) o) :=
  cutOverlay_keeps_iff (Hypergraph.Rows.simple ⟨rfl, by decide, by decide⟩ _) 2
    (List.mem_singleton_self _)

/-- The cluster of the fixed vertex gets number 0, which the initial solution has for vertex 0. -/
theorem not_overlayKeeps :
    ∃ o, cutOverlay fixedLast [fun v => if v = 0 then 0 else 1] (fun v => if v = 0 then 0 else 1) =
        some o ∧
      ¬OverlayKeeps fixedLast 2 [fun v => if v = 0 then 0 else 1]
        (fun v => if v = 0 then 0 else 1) o := by
  refine ⟨_, rfl, fun h => ?_⟩
  exact absurd (h.initial 0 (by decide)) (by decide)

end OpenRoad.Par
