import OpenRoad.ParVertexGain

/-!
The greedy refinement: all vertices of a hyperedge are moved to one block. The gain is computed by
moving the vertices one by one in a copy of the degrees; the balance is tested after all of them have
moved.
-/

namespace OpenRoad.Par

variable {d k : Nat}

/-- `HyperedgeGain`, without paths. -/
structure HyperedgeGain where
  hyperedge : Nat
  destinationPart : Nat
  gain : ℚ

/-- The solution with the vertices of a list in one block. -/
def moveAll (solution : Partitions) (vertices : List Nat) (toPid : Nat) : Partitions :=
  fun v => if v ∈ vertices then toPid else solution v

namespace Refiner

variable (R : Refiner d k)

/-! ### The gain -/

/-- One vertex of a hyperedge moves from a block to another. -/
def shiftEdge (fromPid toPid : Nat) (degs : Nat → Nat → Int) (e : Nat) : Nat → Nat → Int :=
  let taken := Function.update (degs e) fromPid (degs e fromPid - 1)
  Function.update degs e (Function.update taken toPid (taken toPid + 1))

/-- The score of one hyperedge of a vertex that moves, and the degrees after it. -/
def scoreEdge (fromPid toPid : Nat) (acc : ℚ × (Nat → Nat → Int)) (e : Nat) :
    ℚ × (Nat → Nat → Int) :=
  if R.connectivity acc.2 e = 0 then acc
  else (acc.1 + R.edgeScore acc.2 fromPid toPid e, shiftEdge fromPid toPid acc.2 e)

/-- The cut score of moving one vertex after another. -/
def scoreVertices (toPid : Nat) (vertices : List (Nat × Nat)) (acc : ℚ × (Nat → Nat → Int)) :
    ℚ × (Nat → Nat → Int) :=
  vertices.foldl (fun acc vertex =>
    (R.hgraph.edges vertex.1).foldl (R.scoreEdge vertex.2 toPid) acc) acc

/-- `CalculateHyperedgeGain`, without paths. -/
def calculateHyperedgeGain (netDegs : Nat → Nat → Int) (solution : Partitions)
    (hyperedgeId toPid : Nat) : HyperedgeGain :=
  let vertices := ((R.hgraph.vertices hyperedgeId).filter fun v => solution v ≠ toPid).map fun v =>
    (v, solution v)
  ⟨hyperedgeId, toPid, (R.scoreVertices toPid vertices (0, netDegs)).1⟩

/-! ### The move -/

/-- One vertex of the hyperedge in `AcceptHyperedgeGain`. -/
def acceptVertex (newPartId : Nat) (s : Refining d) (v : Nat) : Refining d :=
  let prePartId := s.solution v
  if prePartId = newPartId then s
  else
    let w := R.hgraph.vertexWeight v
    let taken := Function.update s.blockBalance prePartId (s.blockBalance prePartId - w)
    { s with
      solution := Function.update s.solution v newPartId
      blockBalance := Function.update taken newPartId (taken newPartId + w)
      netDegs := R.shiftDegrees v prePartId newPartId s.netDegs }

/-- `AcceptHyperedgeGain` -/
def acceptHyperedgeGain (s : Refining d) (hyperedgeGain : HyperedgeGain) : Refining d :=
  (R.hgraph.vertices hyperedgeGain.hyperedge).foldl
    (R.acceptVertex hyperedgeGain.destinationPart)
    { s with totalDeltaGain := s.totalDeltaGain + hyperedgeGain.gain }

/-- The balance after the vertices of a hyperedge have moved; `none` if one of them violates the
constraint of the fixed vertices. -/
def updateBlockBalance (toPid : Nat) (solution : Partitions) :
    List Nat → (Nat → Weights d) → Option (Nat → Weights d)
  | [], balance => some balance
  | v :: vertices, balance =>
      if R.hgraph.fixedVertexFlag = true ∧ R.hgraph.fixed v ≠ toPid then none
      else if solution v = toPid then updateBlockBalance toPid solution vertices balance
      else
        let w := R.hgraph.vertexWeight v
        let given := Function.update balance toPid (balance toPid + w)
        updateBlockBalance toPid solution vertices
          (Function.update given (solution v) (given (solution v) - w))

/-- `CheckHyperedgeMoveLegality` -/
def checkHyperedgeMoveLegality (e toPid : Nat) (solution : Partitions)
    (blockBalance : Nat → Weights d) : Bool :=
  match R.updateBlockBalance toPid solution (R.hgraph.vertices e) blockBalance with
  | none => false
  | some updated =>
      !(R.upper toPid).less (updated toPid) &&
        (List.range R.numParts).all fun pid =>
          decide (pid = toPid) || !(updated pid).less (R.lower pid)

/-! ### A pass -/

/-- `CalculateHyperedgeVertexWtSum` -/
def hyperedgeVertexWtSum (vWtFactors : Weights d) (e : Nat) : ℚ :=
  ((R.hgraph.vertices e).map fun v => ∑ i, R.hgraph.vertexWeight v i * vWtFactors i).sum

/-- `CompareHyperedgeGain` -/
def compareHyperedgeGain (vWtFactors : Weights d) (a b : HyperedgeGain) : Bool :=
  decide (b.gain < a.gain) || (decide (a.gain = b.gain) &&
    decide (R.hyperedgeVertexWtSum vWtFactors a.hyperedge <
      R.hyperedgeVertexWtSum vWtFactors b.hyperedge))

/-- One target block in the search of the best legal move. -/
def considerBlock (vWtFactors : Weights d) (s : Refining d) (hyperedgeId : Nat)
    (best : Option HyperedgeGain) (toPid : Nat) : Option HyperedgeGain :=
  if R.checkHyperedgeMoveLegality hyperedgeId toPid s.solution s.blockBalance = true then
    let gain := R.calculateHyperedgeGain s.netDegs s.solution hyperedgeId toPid
    match best with
    | none => some gain
    | some best => some (if R.compareHyperedgeGain vWtFactors gain best = true then gain else best)
  else best

/-- The best legal move of a hyperedge. -/
def bestHyperedgeGain (vWtFactors : Weights d) (s : Refining d) (hyperedgeId : Nat) :
    Option HyperedgeGain :=
  (List.range R.numParts).foldl (R.considerBlock vWtFactors s hyperedgeId) none

/-- The move of one straddled hyperedge. -/
def moveHyperedge (vWtFactors : Weights d) (s : Refining d) (hyperedgeId : Nat) : Refining d :=
  match R.bestHyperedgeGain vWtFactors s hyperedgeId with
  | none => s
  | some best => if 0 ≤ best.gain then R.acceptHyperedgeGain s best else s

/-- The loop of `Pass` over the hyperedges that are left. -/
def greedyLoop (vWtFactors : Weights d) : Nat → List Nat → Refining d → Refining d
  | _, [], s => s
  | numMove, e :: es, s =>
      if R.connectivity s.netDegs e ≤ 1 then greedyLoop vWtFactors numMove es s
      else if R.maxMove ≤ numMove + 1 then s
      else greedyLoop vWtFactors (numMove + 1) es (R.moveHyperedge vWtFactors s e)

/-- `GreedyRefine::Pass` -/
def greedyPass (vWtFactors : Weights d) (s : Refining d) : Refining d :=
  R.greedyLoop vWtFactors 0 (List.range R.hgraph.numHyperedges) { s with totalDeltaGain := 0 }

/-! ### The gain is exact -/

variable {R}

theorem moveAll_cons (solution : Partitions) {v : Nat} {vertices : List Nat} (toPid : Nat) :
    moveAll solution (v :: vertices) toPid =
      moveAll (Function.update solution v toPid) vertices toPid := by
  funext u
  unfold moveAll
  by_cases hu : u = v
  · rw [hu, Function.update_self, if_pos List.mem_cons_self]
    split <;> rfl
  · rw [Function.update_of_ne hu]
    simp [hu]

/-- Vertices that are in the block already need not move. -/
theorem moveAll_filter (solution : Partitions) (vertices : List Nat) (toPid : Nat) :
    moveAll solution (vertices.filter fun v => solution v ≠ toPid) toPid =
      moveAll solution vertices toPid := by
  funext u
  unfold moveAll
  simp only [List.mem_filter, decide_eq_true_eq]
  by_cases hto : solution u = toPid
  · simp [hto]
  · simp [hto]

theorem update_range {solution : Partitions}
    (hrange : ∀ v < R.hgraph.numVertices, solution v < R.numParts) {toPid : Nat}
    (hto : toPid < R.numParts) (v : Nat) :
    ∀ u < R.hgraph.numVertices, Function.update solution v toPid u < R.numParts := by
  intro u hu
  by_cases huv : u = v
  · rw [huv, Function.update_self]
    exact hto
  · rw [Function.update_of_ne huv]
    exact hrange u hu

theorem shiftEdge_of_ne (fromPid toPid : Nat) (degs : Nat → Nat → Int) {e e' : Nat} (h : e' ≠ e) :
    shiftEdge fromPid toPid degs e e' = degs e' :=
  Function.update_of_ne h _ _

/-- The hyperedges of a vertex are scored one after the other with the degrees from before the
move. -/
theorem foldl_scoreEdge {fromPid toPid : Nat} {degs : Nat → Nat → Int} {edges : List Nat}
    (hnodup : edges.Nodup) (hconn : ∀ e ∈ edges, R.connectivity degs e ≠ 0) (score : ℚ) :
    edges.foldl (R.scoreEdge fromPid toPid) (score, degs) =
      (score + (edges.map (R.edgeScore degs fromPid toPid)).sum,
        edges.foldl (shiftEdge fromPid toPid) degs) := by
  induction edges generalizing score degs with
  | nil => simp
  | cons e edges ih =>
      obtain ⟨he, hedges⟩ := List.nodup_cons.mp hnodup
      have hother : ∀ e' ∈ edges, shiftEdge fromPid toPid degs e e' = degs e' := by
        intro e' he'
        apply shiftEdge_of_ne
        rintro rfl
        exact he he'
      have hsame : ∀ e' ∈ edges,
          R.connectivity (shiftEdge fromPid toPid degs e) e' = R.connectivity degs e' := by
        intro e' he'
        unfold connectivity
        rw [hother e' he']
      have hscore : ∀ e' ∈ edges, R.edgeScore (shiftEdge fromPid toPid degs e) fromPid toPid e' =
          R.edgeScore degs fromPid toPid e' := by
        intro e' he'
        unfold edgeScore
        rw [hsame e' he', hother e' he']
      have hstep : R.scoreEdge fromPid toPid (score, degs) e =
          (score + R.edgeScore degs fromPid toPid e, shiftEdge fromPid toPid degs e) :=
        if_neg (hconn e List.mem_cons_self)
      rw [List.foldl_cons, hstep, ih hedges, List.map_congr_left hscore, List.foldl_cons,
        List.map_cons, List.sum_cons, add_assoc]
      intro e' he'
      rw [hsame e' he']
      exact hconn e' (List.mem_cons_of_mem _ he')

/-- The scores of the vertices add up to the decrease of the cut cost. -/
theorem scoreVertices_exact (hH : R.hgraph.Simple) {toPid : Nat} (hto : toPid < R.numParts)
    {vertices : List Nat} (hnodup : vertices.Nodup) {solution : Partitions}
    (hrange : ∀ v < R.hgraph.numVertices, solution v < R.numParts)
    (hne : ∀ v ∈ vertices, solution v ≠ toPid) (score : ℚ) :
    R.scoreVertices toPid (vertices.map fun v => (v, solution v)) (score, R.degreesOf solution) =
      (score + (R.hgraph.cutCost R.eWtFactors solution -
          R.hgraph.cutCost R.eWtFactors (moveAll solution vertices toPid)),
        R.degreesOf (moveAll solution vertices toPid)) := by
  induction vertices generalizing solution score with
  | nil =>
      have hnone : moveAll solution [] toPid = solution := rfl
      rw [hnone, sub_self, add_zero]
      rfl
  | cons v vertices ih =>
      obtain ⟨hv, hvertices⟩ := List.nodup_cons.mp hnodup
      have hvne := hne v List.mem_cons_self
      have hconn : ∀ e ∈ R.hgraph.edges v, R.connectivity (R.degreesOf solution) e ≠ 0 := by
        intro e he
        rw [connectivity_eq hH hrange]
        have hmem : solution v ∈ blocksOf R.hgraph solution e :=
          mem_blocksOf.mpr ⟨v, (hH.mem_edges v e).mp he, rfl⟩
        exact Finset.card_ne_zero_of_mem hmem
      have hgain : ((R.hgraph.edges v).map
          (R.edgeScore (R.degreesOf solution) (solution v) toPid)).sum =
          R.hgraph.cutCost R.eWtFactors solution -
            R.hgraph.cutCost R.eWtFactors (Function.update solution v toPid) := by
        rw [← calculateVertexGain_exact hH hrange hvne]
        exact (if_neg hvne).symm
      have hdegs : (R.hgraph.edges v).foldl (shiftEdge (solution v) toPid) (R.degreesOf solution) =
          R.degreesOf (Function.update solution v toPid) :=
        (degreesOf_update hH solution v toPid).symm
      have hothers : (vertices.map fun u => (u, solution u)) =
          vertices.map fun u => (u, Function.update solution v toPid u) := by
        apply List.map_congr_left
        intro u hu
        have huv : u ≠ v := by
          rintro rfl
          exact hv hu
        rw [Function.update_of_ne huv]
      have hne' : ∀ u ∈ vertices, Function.update solution v toPid u ≠ toPid := by
        intro u hu
        have huv : u ≠ v := by
          rintro rfl
          exact hv hu
        rw [Function.update_of_ne huv]
        exact hne u (List.mem_cons_of_mem _ hu)
      have hrest := ih hvertices (update_range hrange hto v) hne' (score +
        (R.hgraph.cutCost R.eWtFactors solution -
          R.hgraph.cutCost R.eWtFactors (Function.update solution v toPid)))
      unfold scoreVertices at hrest ⊢
      rw [List.map_cons, List.foldl_cons, foldl_scoreEdge (hH.nodup_edges v) hconn, hgain, hdegs,
        hothers, hrest, moveAll_cons, add_assoc, sub_add_sub_cancel]

/-- The gain is the decrease of the cut cost when all vertices of the hyperedge move. -/
theorem calculateHyperedgeGain_exact (hH : R.hgraph.Simple) {solution : Partitions}
    (hrange : ∀ v < R.hgraph.numVertices, solution v < R.numParts) (e : Nat) {toPid : Nat}
    (hto : toPid < R.numParts) :
    (R.calculateHyperedgeGain (R.degreesOf solution) solution e toPid).gain =
      R.hgraph.cutCost R.eWtFactors solution -
        R.hgraph.cutCost R.eWtFactors (moveAll solution (R.hgraph.vertices e) toPid) := by
  have hscore := scoreVertices_exact hH hto ((hH.nodup_vertices e).filter _) hrange
    (fun v hv => of_decide_eq_true (List.mem_filter.mp hv).2) 0
  unfold calculateHyperedgeGain
  dsimp only
  rw [hscore, zero_add, moveAll_filter]

/-! ### The move keeps the state consistent -/

theorem acceptVertex_consistent (hH : R.hgraph.Simple) {s : Refining d} (hs : R.Consistent s)
    (newPartId : Nat) {v : Nat} (hv : v < R.hgraph.numVertices) :
    R.Consistent (R.acceptVertex newPartId s v) ∧
      (R.acceptVertex newPartId s v).solution = Function.update s.solution v newPartId ∧
      (R.acceptVertex newPartId s v).totalDeltaGain = s.totalDeltaGain := by
  unfold acceptVertex
  dsimp only
  split
  · rename_i heq
    rw [← heq, Function.update_eq_self]
    exact ⟨hs, rfl, rfl⟩
  · refine ⟨⟨?_, ?_⟩, rfl, rfl⟩
    · dsimp only
      rw [R.hgraph.blockBalance_update s.solution newPartId hv, hs.blockBalance]
    · dsimp only
      rw [degreesOf_update hH, hs.netDegs]

theorem foldl_acceptVertex (hH : R.hgraph.Simple) (newPartId : Nat) {vertices : List Nat}
    (hvertices : ∀ v ∈ vertices, v < R.hgraph.numVertices) {s : Refining d}
    (hs : R.Consistent s) :
    R.Consistent (vertices.foldl (R.acceptVertex newPartId) s) ∧
      (vertices.foldl (R.acceptVertex newPartId) s).solution =
        moveAll s.solution vertices newPartId ∧
      (vertices.foldl (R.acceptVertex newPartId) s).totalDeltaGain = s.totalDeltaGain := by
  induction vertices generalizing s with
  | nil => exact ⟨hs, rfl, rfl⟩
  | cons v vertices ih =>
      obtain ⟨hs', hsolution, hgain⟩ :=
        acceptVertex_consistent hH hs newPartId (hvertices v List.mem_cons_self)
      obtain ⟨hs'', hsolution', hgain'⟩ :=
        ih (fun u hu => hvertices u (List.mem_cons_of_mem _ hu)) hs'
      refine ⟨hs'', ?_, hgain'.trans hgain⟩
      rw [List.foldl_cons, hsolution', hsolution, moveAll_cons]

/-- An accepted move of a computed gain changes the cut cost by the gain. -/
theorem acceptHyperedgeGain_spec (hH : R.hgraph.Simple) {s : Refining d} (hs : R.Consistent s)
    (hrange : ∀ v < R.hgraph.numVertices, s.solution v < R.numParts) (e : Nat) {toPid : Nat}
    (hto : toPid < R.numParts) :
    R.Consistent (R.acceptHyperedgeGain s
        (R.calculateHyperedgeGain s.netDegs s.solution e toPid)) ∧
      (R.acceptHyperedgeGain s (R.calculateHyperedgeGain s.netDegs s.solution e toPid)).solution =
        moveAll s.solution (R.hgraph.vertices e) toPid ∧
      R.hgraph.cutCost R.eWtFactors (R.acceptHyperedgeGain s
          (R.calculateHyperedgeGain s.netDegs s.solution e toPid)).solution =
        R.hgraph.cutCost R.eWtFactors s.solution -
          (R.calculateHyperedgeGain s.netDegs s.solution e toPid).gain := by
  obtain ⟨hs', hsolution, -⟩ := foldl_acceptVertex hH toPid (hH.vertex_lt e)
    (s := { s with
      totalDeltaGain := s.totalDeltaGain +
        (R.calculateHyperedgeGain s.netDegs s.solution e toPid).gain }) ⟨hs.blockBalance, hs.netDegs⟩
  have hsolution' : (R.acceptHyperedgeGain s
      (R.calculateHyperedgeGain s.netDegs s.solution e toPid)).solution =
        moveAll s.solution (R.hgraph.vertices e) toPid := hsolution
  refine ⟨hs', hsolution', ?_⟩
  rw [hsolution', hs.netDegs, calculateHyperedgeGain_exact hH hrange e hto, sub_sub_cancel]

/-! ### The pass never increases the cut cost -/

/-- The best move is that of a computed gain. -/
theorem bestHyperedgeGain_eq {vWtFactors : Weights d} {s : Refining d} {e : Nat}
    {best : HyperedgeGain} (h : R.bestHyperedgeGain vWtFactors s e = some best) :
    ∃ toPid < R.numParts, best = R.calculateHyperedgeGain s.netDegs s.solution e toPid := by
  have hfold : ∀ blocks : List Nat, (∀ b ∈ blocks, b < R.numParts) →
      ∀ start : Option HyperedgeGain, (∀ g, start = some g →
        ∃ toPid < R.numParts, g = R.calculateHyperedgeGain s.netDegs s.solution e toPid) →
      ∀ g, blocks.foldl (R.considerBlock vWtFactors s e) start = some g →
        ∃ toPid < R.numParts, g = R.calculateHyperedgeGain s.netDegs s.solution e toPid := by
    intro blocks
    induction blocks with
    | nil => exact fun _ start hstart g hg => hstart g hg
    | cons b blocks ih =>
        intro hblocks start hstart g hg
        refine ih (fun b' hb' => hblocks b' (List.mem_cons_of_mem _ hb')) _ ?_ g hg
        intro g' hg'
        have hb := hblocks b List.mem_cons_self
        unfold considerBlock at hg'
        split at hg'
        · cases start with
          | none => exact ⟨b, hb, (Option.some.inj hg').symm⟩
          | some best =>
              dsimp only at hg'
              split at hg'
              · exact ⟨b, hb, (Option.some.inj hg').symm⟩
              · exact hstart g' hg'
        · exact hstart g' hg'
  exact hfold (List.range R.numParts) (fun b hb => List.mem_range.mp hb) none
    (fun g hg => by cases hg) best h

/-- A state as the pass keeps it: consistent, and all vertices are in blocks. -/
structure GreedySound (R : Refiner d k) (s : Refining d) : Prop where
  consistent : R.Consistent s
  inBlocks : ∀ v < R.hgraph.numVertices, s.solution v < R.numParts

theorem moveHyperedge_spec (hH : R.hgraph.Simple) (vWtFactors : Weights d) {s : Refining d}
    (hs : R.GreedySound s) (e : Nat) :
    R.GreedySound (R.moveHyperedge vWtFactors s e) ∧
      R.hgraph.cutCost R.eWtFactors (R.moveHyperedge vWtFactors s e).solution ≤
        R.hgraph.cutCost R.eWtFactors s.solution := by
  unfold moveHyperedge
  cases hbest : R.bestHyperedgeGain vWtFactors s e with
  | none => exact ⟨hs, le_refl _⟩
  | some best =>
      obtain ⟨toPid, hto, rfl⟩ := bestHyperedgeGain_eq hbest
      obtain ⟨hconsistent, hsolution, hcost⟩ :=
        acceptHyperedgeGain_spec hH hs.consistent hs.inBlocks e hto
      dsimp only
      split
      · rename_i hgain
        refine ⟨⟨hconsistent, fun v hv => ?_⟩, ?_⟩
        · rw [hsolution]
          unfold moveAll
          split
          · exact hto
          · exact hs.inBlocks v hv
        · rw [hcost]
          exact sub_le_self _ hgain
      · exact ⟨hs, le_refl _⟩

theorem greedyLoop_cutCost_le (hH : R.hgraph.Simple) (vWtFactors : Weights d) (es : List Nat)
    (numMove : Nat) {s : Refining d} (hs : R.GreedySound s) :
    R.hgraph.cutCost R.eWtFactors (R.greedyLoop vWtFactors numMove es s).solution ≤
      R.hgraph.cutCost R.eWtFactors s.solution := by
  induction es generalizing numMove s with
  | nil => exact le_refl _
  | cons e es ih =>
      rw [greedyLoop]
      split
      · exact ih numMove hs
      · split
        · exact le_refl _
        · obtain ⟨hs', hcost⟩ := moveHyperedge_spec hH vWtFactors hs e
          exact le_trans (ih (numMove + 1) hs') hcost

theorem greedyPass_cutCost_le (hH : R.hgraph.Simple) (vWtFactors : Weights d) {s : Refining d}
    (hs : R.GreedySound s) :
    R.hgraph.cutCost R.eWtFactors (R.greedyPass vWtFactors s).solution ≤
      R.hgraph.cutCost R.eWtFactors s.solution :=
  greedyLoop_cutCost_le hH vWtFactors _ 0 (s := { s with totalDeltaGain := 0 })
    ⟨⟨hs.consistent.blockBalance, hs.consistent.netDegs⟩, hs.inBlocks⟩

/-! ### Legality -/

/-- A vertex of the hyperedge is not fixed in the target block, in a hypergraph with fixed
vertices. -/
def HasOtherFixed (R : Refiner d k) (e toPid : Nat) : Prop :=
  R.hgraph.fixedVertexFlag = true ∧ ∃ v ∈ R.hgraph.vertices e, R.hgraph.fixed v ≠ toPid

theorem updateBlockBalance_none {toPid : Nat} {solution : Partitions}
    (hflag : R.hgraph.fixedVertexFlag = true) {vertices : List Nat}
    (hfixed : ∃ v ∈ vertices, R.hgraph.fixed v ≠ toPid) (balance : Nat → Weights d) :
    R.updateBlockBalance toPid solution vertices balance = none := by
  induction vertices generalizing balance with
  | nil =>
      obtain ⟨v, hv, -⟩ := hfixed
      cases hv
  | cons v vertices ih =>
      rw [updateBlockBalance]
      split
      · rfl
      · rename_i hv
        have hrest : ∃ u ∈ vertices, R.hgraph.fixed u ≠ toPid := by
          obtain ⟨u, hu, hne⟩ := hfixed
          rcases List.mem_cons.mp hu with rfl | hu
          · exact absurd ⟨hflag, hne⟩ hv
          · exact ⟨u, hu, hne⟩
        split
        · exact ih hrest _
        · exact ih hrest _

/-- The balance is that of the solution with the vertices moved. -/
theorem updateBlockBalance_some {toPid : Nat} {solution : Partitions} {vertices : List Nat}
    (hnodup : vertices.Nodup) (hvertices : ∀ v ∈ vertices, v < R.hgraph.numVertices)
    (hfixed : ¬(R.hgraph.fixedVertexFlag = true ∧ ∃ v ∈ vertices, R.hgraph.fixed v ≠ toPid))
    {moved : Partitions} (hmoved : ∀ v ∈ vertices, moved v = solution v) :
    R.updateBlockBalance toPid solution vertices (R.hgraph.blockBalance moved) =
      some (R.hgraph.blockBalance (moveAll moved vertices toPid)) := by
  induction vertices generalizing moved with
  | nil => rfl
  | cons v vertices ih =>
      obtain ⟨hv, hrest⟩ := List.nodup_cons.mp hnodup
      have hvmoved := hmoved v List.mem_cons_self
      have hbalance : (if solution v = toPid then R.hgraph.blockBalance moved
          else Function.update (Function.update (R.hgraph.blockBalance moved) toPid
              (R.hgraph.blockBalance moved toPid + R.hgraph.vertexWeight v)) (solution v)
            (Function.update (R.hgraph.blockBalance moved) toPid
                (R.hgraph.blockBalance moved toPid + R.hgraph.vertexWeight v) (solution v) -
              R.hgraph.vertexWeight v)) =
          R.hgraph.blockBalance (Function.update moved v toPid) := by
        split
        · rename_i heq
          rw [← heq, ← hvmoved, Function.update_eq_self]
        · rename_i hne
          rw [R.hgraph.blockBalance_update moved toPid (hvertices v List.mem_cons_self), hvmoved,
            Function.update_of_ne hne, Function.update_of_ne (Ne.symm hne),
            Function.update_comm hne]
      have hmoved' : ∀ u ∈ vertices, Function.update moved v toPid u = solution u := by
        intro u hu
        rw [Function.update_of_ne fun h : u = v => hv (h ▸ hu)]
        exact hmoved u (List.mem_cons_of_mem _ hu)
      have hrest' := ih hrest (fun u hu => hvertices u (List.mem_cons_of_mem _ hu))
        (fun h => hfixed ⟨h.1, by
          obtain ⟨u, hu, hne⟩ := h.2
          exact ⟨u, List.mem_cons_of_mem _ hu, hne⟩⟩) hmoved'
      rw [moveAll_cons, ← hrest', ← hbalance, updateBlockBalance,
        if_neg fun h => hfixed ⟨h.1, v, List.mem_cons_self, h.2⟩]
      split <;> rfl

/-- A bound that the move can break is broken in every dimension. -/
def FailsEverywhere (R : Refiner d k) (e toPid : Nat) (solution : Partitions) : Prop :=
  (∀ i, R.upper toPid i <
    R.hgraph.blockBalance (moveAll solution (R.hgraph.vertices e) toPid) toPid i) ∨
  ∃ pid < R.numParts, pid ≠ toPid ∧ ∀ i,
    R.hgraph.blockBalance (moveAll solution (R.hgraph.vertices e) toPid) pid i < R.lower pid i

theorem checkHyperedgeMoveLegality_iff (hH : R.hgraph.Simple) (solution : Partitions)
    (e toPid : Nat) :
    R.checkHyperedgeMoveLegality e toPid solution (R.hgraph.blockBalance solution) = true ↔
      ¬R.HasOtherFixed e toPid ∧ ¬R.FailsEverywhere e toPid solution := by
  unfold checkHyperedgeMoveLegality
  by_cases hfixed : R.HasOtherFixed e toPid
  · rw [updateBlockBalance_none hfixed.1 hfixed.2]
    exact iff_of_false Bool.false_ne_true fun h => h.1 hfixed
  · rw [updateBlockBalance_some (hH.nodup_vertices e) (hH.vertex_lt e) hfixed fun _ _ => rfl]
    dsimp only
    unfold FailsEverywhere Weights.less
    rw [Bool.and_eq_true, not_or, Bool.not_eq_true', decide_eq_false_iff_not, List.all_eq_true,
      and_iff_right hfixed]
    apply and_congr_right
    intro _
    constructor
    · rintro hall ⟨pid, hpid, hne, hless⟩
      have hpid' := hall pid (List.mem_range.mpr hpid)
      rw [decide_eq_false hne, Bool.false_or, Bool.not_eq_true', decide_eq_false_iff_not] at hpid'
      exact hpid' hless
    · intro hnone pid hpid
      by_cases hne : pid = toPid
      · rw [decide_eq_true hne, Bool.true_or]
      · rw [decide_eq_false hne, Bool.false_or, Bool.not_eq_true', decide_eq_false_iff_not]
        exact fun hless => hnone ⟨pid, List.mem_range.mp hpid, hne, hless⟩

/-! ### The refinement as a whole -/

/-- All bounds hold in every dimension. -/
def WithinBounds (R : Refiner d k) (solution : Partitions) : Prop :=
  ∀ b < R.numParts, ∀ i, R.lower b i ≤ R.hgraph.blockBalance solution b i ∧
    R.hgraph.blockBalance solution b i ≤ R.upper b i

/-- A vertex that the move of a hyperedge takes to another block is fixed in a third one. -/
def MovesFixed (R : Refiner d k) (e toPid : Nat) (solution : Partitions) : Prop :=
  ∃ v ∈ R.hgraph.vertices e, solution v ≠ toPid ∧ -1 < R.hgraph.fixedBlock v ∧
    R.hgraph.fixedBlock v ≠ toPid

/-- The gain of moving a hyperedge is exact, the move is legal when it moves no vertex that is fixed
elsewhere and all bounds hold afterwards, and a pass does not increase the cut cost. -/
structure GreedyRight (R : Refiner d k) (solution : Partitions) (e toPid : Nat) : Prop where
  gain_exact : (R.calculateHyperedgeGain (R.degreesOf solution) solution e toPid).gain =
    R.hgraph.cutCost R.eWtFactors solution -
      R.hgraph.cutCost R.eWtFactors (moveAll solution (R.hgraph.vertices e) toPid)
  legal_iff :
    R.checkHyperedgeMoveLegality e toPid solution (R.hgraph.blockBalance solution) = true ↔
      ¬R.MovesFixed e toPid solution ∧
        R.WithinBounds (moveAll solution (R.hgraph.vertices e) toPid)
  pass_le : ∀ (vWtFactors : Weights d) (s : Refining d), R.Consistent s → s.solution = solution →
    R.hgraph.cutCost R.eWtFactors (R.greedyPass vWtFactors s).solution ≤
      R.hgraph.cutCost R.eWtFactors solution

/-- Gain and pass are always right. The legality is where a vertex that is not fixed in the target
block comes with a move that has to be refused, and where there is none and a broken bound is broken
in every dimension. -/
theorem greedyRight_iff (hH : R.hgraph.Simple) {solution : Partitions}
    (hrange : ∀ v < R.hgraph.numVertices, solution v < R.numParts) (e : Nat) {toPid : Nat}
    (hto : toPid < R.numParts) :
    R.GreedyRight solution e toPid ↔
      R.HasOtherFixed e toPid ∧ (R.MovesFixed e toPid solution ∨
          ¬R.WithinBounds (moveAll solution (R.hgraph.vertices e) toPid)) ∨
      ¬R.HasOtherFixed e toPid ∧ 0 < d ∧
        (R.WithinBounds (moveAll solution (R.hgraph.vertices e) toPid) ∨
          R.FailsEverywhere e toPid solution) := by
  have hpass : ∀ (vWtFactors : Weights d) (s : Refining d), R.Consistent s →
      s.solution = solution → R.hgraph.cutCost R.eWtFactors (R.greedyPass vWtFactors s).solution ≤
        R.hgraph.cutCost R.eWtFactors solution := by
    rintro vWtFactors s hs rfl
    exact greedyPass_cutCost_le hH vWtFactors ⟨hs, hrange⟩
  have hlegal := checkHyperedgeMoveLegality_iff hH solution e toPid
  -- no vertex that is fixed in the target block only is moved away
  have hmoves : ¬R.HasOtherFixed e toPid → ¬R.MovesFixed e toPid solution := by
    rintro hother ⟨v, hv, -, hfixed, hne⟩
    unfold Hypergraph.fixedBlock at hfixed hne
    by_cases hflag : R.hgraph.fixedVertexFlag = true
    · rw [if_pos hflag] at hne
      exact hother ⟨hflag, v, hv, hne⟩
    · rw [if_neg hflag] at hfixed
      exact lt_irrefl _ hfixed
  -- with a dimension, a bound that is broken everywhere is broken
  have hfails : 0 < d → R.FailsEverywhere e toPid solution →
      ¬R.WithinBounds (moveAll solution (R.hgraph.vertices e) toPid) := by
    rintro hd (hupper | ⟨pid, hpid, -, hlower⟩) hwithin
    · exact absurd (hupper ⟨0, hd⟩) (not_lt.mpr (hwithin toPid hto ⟨0, hd⟩).2)
    · exact absurd (hlower ⟨0, hd⟩) (not_lt.mpr (hwithin pid hpid ⟨0, hd⟩).1)
  have hnone : ¬0 < d → R.FailsEverywhere e toPid solution ∧
      R.WithinBounds (moveAll solution (R.hgraph.vertices e) toPid) := by
    intro hd
    have hempty : ∀ i : Fin d, False := fun i => hd (Nat.zero_lt_of_lt i.isLt)
    exact ⟨Or.inl fun i => (hempty i).elim, fun _ _ i => (hempty i).elim⟩
  have hiff : R.GreedyRight solution e toPid ↔
      (¬R.HasOtherFixed e toPid ∧ ¬R.FailsEverywhere e toPid solution ↔
        ¬R.MovesFixed e toPid solution ∧
          R.WithinBounds (moveAll solution (R.hgraph.vertices e) toPid)) := by
    constructor
    · intro hright
      rw [← hlegal]
      exact hright.legal_iff
    · intro h
      exact ⟨calculateHyperedgeGain_exact hH hrange e hto, hlegal.trans h, hpass⟩
  rw [hiff]
  by_cases hother : R.HasOtherFixed e toPid
  · simp only [hother, not_true_eq_false, false_and, true_and, or_false, false_iff, not_and_or,
      not_not]
  · simp only [hother, hmoves hother, not_false_eq_true, true_and, false_and, false_or]
    by_cases hfail : R.FailsEverywhere e toPid solution
    · simp only [hfail, not_true_eq_false, false_iff, or_true, and_true]
      exact ⟨fun hwithin => by_contra fun hd => hwithin (hnone hd).2, fun hd => hfails hd hfail⟩
    · have hd : 0 < d := by_contra fun hd => hfail (hnone hd).1
      simp only [hfail, not_false_eq_true, true_iff, or_false, hd, true_and]

/-- Two vertices in different blocks, the second one fixed. -/
def straddled : Refiner 1 1 where
  hgraph := .make [[0, 1]] [fun _ => 1, fun _ => 2] [fun _ => 1] [-1, 1]
  numParts := 2
  maxMove := 5
  totalCorkingPasses := 1
  eWtFactors := fun _ => 1
  upper := fun _ _ => 3
  lower := fun _ _ => 0

theorem straddled_simple : straddled.hgraph.Simple :=
  Hypergraph.Rows.simple ⟨rfl, by decide, by decide⟩ [-1, 1]

theorem straddled_greedyRight :
    straddled.GreedyRight id 0 0 ↔
      straddled.HasOtherFixed 0 0 ∧ (straddled.MovesFixed 0 0 id ∨
          ¬straddled.WithinBounds (moveAll id (straddled.hgraph.vertices 0) 0)) ∨
      ¬straddled.HasOtherFixed 0 0 ∧ 0 < 1 ∧
        (straddled.WithinBounds (moveAll id (straddled.hgraph.vertices 0) 0) ∨
          straddled.FailsEverywhere 0 0 id) :=
  greedyRight_iff straddled_simple (by decide) 0 (by decide)

/-- Only the free vertex would move, and all bounds would hold, but the move is not legal. -/
theorem not_straddled_greedyRight : ¬straddled.GreedyRight id 0 1 := by
  intro hright
  have hmoves : ¬straddled.MovesFixed 0 1 id := by
    unfold MovesFixed
    decide +kernel
  have hwithin : straddled.WithinBounds (moveAll id (straddled.hgraph.vertices 0) 1) := by
    unfold WithinBounds
    decide +kernel
  exact absurd (hright.legal_iff.mpr ⟨hmoves, hwithin⟩) (by decide +kernel)

end Refiner

end OpenRoad.Par
