import OpenRoad.ParGainBuckets
import Mathlib.Tactic.Linarith

/-!
The passes of the refiners: over any run of moves the solution is replayed from the trace and the
total is the decrease of the cut cost, and the pass ends at the best solution of the run.
-/

namespace OpenRoad.Par

variable {d k : Nat}

namespace Refiner

variable {R : Refiner d k}

/-! ### The trace of a pass -/

/-- The solution after the moves of a trace, the last one first. -/
def replay (solution : Partitions) : List VertexGain → Partitions
  | [] => solution
  | cell :: trace =>
      Function.update (replay solution trace) cell.vertex cell.destinationPart

/-- Each move of a trace takes a vertex that was free at the start, and was not moved before, from
its block to another one. -/
def Trail (R : Refiner d k) (start : Refining d) : List VertexGain → Prop
  | [] => True
  | cell :: trace =>
      (start.visited cell.vertex = false ∧ cell.vertex < R.hgraph.numVertices ∧
        cell.destinationPart < R.numParts ∧
        cell.sourcePart = replay start.solution trace cell.vertex ∧
        cell.sourcePart ≠ cell.destinationPart ∧
        ∀ move ∈ trace, move.vertex ≠ cell.vertex) ∧ Trail R start trace

theorem Trail.of_append {start : Refining d} {later earlier : List VertexGain}
    (h : Trail R start (later ++ earlier)) : Trail R start earlier := by
  induction later with
  | nil => exact h
  | cons cell later ih => exact ih h.2

theorem replay_of_notMem {solution : Partitions} {trace : List VertexGain} {v : Nat}
    (h : ∀ move ∈ trace, move.vertex ≠ v) : replay solution trace v = solution v := by
  induction trace with
  | nil => rfl
  | cons cell trace ih =>
      obtain ⟨hcell, htrace⟩ := List.forall_mem_cons.mp h
      rw [replay, Function.update_of_ne (Ne.symm hcell), ih htrace]

/-- A vertex that was visited at the start is not moved. -/
theorem Trail.replay_fixed {start : Refining d} {trace : List VertexGain}
    (h : Trail R start trace) {v : Nat} (hv : start.visited v = true) :
    replay start.solution trace v = start.solution v := by
  apply replay_of_notMem
  induction trace with
  | nil => exact fun move hmove => by cases hmove
  | cons cell trace ih =>
      intro move hmove
      rcases List.mem_cons.mp hmove with rfl | hmove
      · rintro rfl
        exact Bool.noConfusion (hv.symm.trans h.1.1)
      · exact ih h.2 move hmove

theorem Trail.replay_lt {start : Refining d} {trace : List VertexGain} (h : Trail R start trace)
    (hrange : ∀ v < R.hgraph.numVertices, start.solution v < R.numParts) :
    ∀ v < R.hgraph.numVertices, replay start.solution trace v < R.numParts := by
  induction trace with
  | nil => exact hrange
  | cons cell trace ih =>
      intro v hv
      rw [replay, Function.update_apply]
      split
      · exact h.1.2.2.1
      · exact ih h.2 v hv

/-! ### Keeping balance and degrees -/

/-- The balance and the degrees are those of a solution. -/
structure Keeps (R : Refiner d k) (s : Refining d) (solution : Partitions) : Prop where
  solution_eq : s.solution = solution
  blockBalance : s.blockBalance = R.hgraph.blockBalance solution
  netDegs : s.netDegs = R.degreesOf solution

/-- `AcceptVertexGain` keeps the balance and the degrees. -/
theorem Keeps.acceptVertexGain (hH : R.hgraph.Simple) {s : Refining d} {solution : Partitions}
    (hs : Keeps R s solution) {cell : VertexGain} (hlt : cell.vertex < R.hgraph.numVertices)
    (hsource : cell.sourcePart = solution cell.vertex) :
    Keeps R (R.acceptVertexGain s cell)
      (Function.update solution cell.vertex cell.destinationPart) := by
  obtain ⟨hsolution, hbalance, hdegs⟩ := hs
  constructor
  · exact congrArg (Function.update · cell.vertex cell.destinationPart) hsolution
  · rw [Hypergraph.blockBalance_update _ _ hlt, ← hsource, ← hbalance]
    rfl
  · rw [degreesOf_update hH, ← hsource, ← hdegs]
    rfl

/-- `RollBackVertexGain` keeps them. -/
theorem Keeps.rollBackVertexGain (hH : R.hgraph.Simple) {s : Refining d} {solution : Partitions}
    {cell : VertexGain}
    (hs : Keeps R s (Function.update solution cell.vertex cell.destinationPart))
    (hlt : cell.vertex < R.hgraph.numVertices)
    (hsource : cell.sourcePart = solution cell.vertex)
    (hne : cell.sourcePart ≠ cell.destinationPart) :
    Keeps R (R.rollBackVertexGain s cell) solution := by
  obtain ⟨hsolution, hbalance, hdegs⟩ := hs
  have hback : Function.update (Function.update solution cell.vertex cell.destinationPart)
      cell.vertex cell.sourcePart = solution := by
    rw [Function.update_idem, hsource, Function.update_eq_self]
  constructor
  · rw [← hback, ← hsolution]
    rfl
  · have hmove := Hypergraph.blockBalance_update (H := R.hgraph)
      (Function.update solution cell.vertex cell.destinationPart) cell.sourcePart hlt
    rw [hback, Function.update_self, ← hbalance] at hmove
    rw [hmove]
    unfold Refiner.rollBackVertexGain
    dsimp only
    rw [Function.update_of_ne (Ne.symm hne), Function.update_of_ne hne,
      Function.update_comm hne]
  · have hmove := degreesOf_update hH
      (Function.update solution cell.vertex cell.destinationPart) cell.vertex cell.sourcePart
    rw [hback, Function.update_self, ← hdegs] at hmove
    exact hmove.symm

/-! ### The run of moves -/

/-- The cost of a solution. -/
def cost (R : Refiner d k) (solution : Partitions) : ℚ := R.hgraph.cutCost R.eWtFactors solution

/-- What holds after each move of a pass from a start; the total is exact as long as no stale
candidate is picked. -/
structure Invariant (R : Refiner d k) (refreshed : Nat → Bool) (blocks : List Nat) (fresh : Prop)
    (start s : Refining d) : Prop where
  trail : Trail R start s.movesTrace
  keeps : Keeps R s (replay start.solution s.movesTrace)
  visited : ∀ v, s.visited v = false ↔
    start.visited v = false ∧ ∀ move ∈ s.movesTrace, move.vertex ≠ v
  gain : fresh → s.totalDeltaGain = R.cost start.solution - R.cost s.solution
  buckets : Buckets R refreshed blocks s

/-- The move of a candidate. -/
theorem Invariant.moveStep (hH : R.hgraph.Simple) {refreshed : Nat → Bool} {blocks : List Nat}
    {fresh : Prop} (hblocks : blocks.Nodup) (hparts : ∀ b ∈ blocks, b < R.numParts) {start s : Refining d}
    (hrange : ∀ v < R.hgraph.numVertices, start.solution v < R.numParts)
    (hs : Invariant R refreshed blocks fresh start s) {cell : VertexGain}
    (hpick : R.pickMoveKWay s = some cell)
    (hfresh : fresh → stale R refreshed s cell.vertex = false) :
    Invariant R refreshed blocks fresh start (R.moveStep blocks (R.refresh refreshed) s cell) ∧
      (R.moveStep blocks (R.refresh refreshed) s cell).movesTrace = cell :: s.movesTrace := by
  obtain ⟨b, hb, hlookup⟩ := pickMoveKWay_lookup hs.buckets hpick
  obtain ⟨hlt, hunvisited, hne, -, hsource, hdestination, hcurrent⟩ :=
    hs.buckets.cells b hb _ _ hlookup
  obtain ⟨hfree, hnew⟩ := (hs.visited cell.vertex).mp hunvisited
  have hsolution := hs.keeps.solution_eq
  have hdiff : cell.sourcePart ≠ cell.destinationPart := by
    rw [hsource, hdestination]
    exact hne
  have hsource' : cell.sourcePart = replay start.solution s.movesTrace cell.vertex := by
    rw [hsource, hsolution]
  obtain ⟨buckets, hmoved, hbuckets⟩ := moveStep_buckets hH hblocks hparts hs.buckets cell
  refine ⟨?_, by rw [hmoved]; rfl⟩
  rw [hmoved] at hbuckets ⊢
  have hkeeps : Keeps R { s with movesTrace := cell :: s.movesTrace }
      (replay start.solution s.movesTrace) :=
    ⟨hs.keeps.solution_eq, hs.keeps.blockBalance, hs.keeps.netDegs⟩
  have hkeeps' := hkeeps.acceptVertexGain hH hlt hsource'
  refine ⟨?_, ⟨hkeeps'.solution_eq, hkeeps'.blockBalance, hkeeps'.netDegs⟩, ?_, ?_, hbuckets⟩
  · refine ⟨⟨hfree, hlt, ?_, hsource', hdiff, hnew⟩, hs.trail⟩
    rw [hdestination]
    exact hparts b hb
  · intro v
    have hvisited : (R.acceptVertexGain { s with movesTrace := cell :: s.movesTrace }
        cell).visited v = Function.update s.visited cell.vertex true v := rfl
    have htrace : (R.acceptVertexGain { s with movesTrace := cell :: s.movesTrace }
        cell).movesTrace = cell :: s.movesTrace := rfl
    dsimp only
    rw [hvisited, htrace, List.forall_mem_cons, Function.update_apply]
    split
    · rename_i h
      simp [h]
    · rename_i h
      rw [hs.visited v]
      simp [Ne.symm h]
  · -- the gain of the candidate is the decrease of its move
    intro hok
    have hexact : cell.gain = R.cost s.solution -
        R.cost (Function.update s.solution cell.vertex cell.destinationPart) := by
      have hnow := hs.trail.replay_lt hrange
      rw [← hsolution] at hnow
      have hdegs : s.netDegs = R.degreesOf s.solution := by
        rw [hs.keeps.netDegs, hsolution]
      rw [hdestination]
      calc cell.gain = (R.gainInto s b cell.vertex).gain := by rw [← hcurrent (hfresh hok)]
        _ = _ := by
          unfold gainInto
          rw [hdegs]
          exact calculateVertexGain_exact hH hnow hne
    have htotal : (R.acceptVertexGain { s with movesTrace := cell :: s.movesTrace }
        cell).totalDeltaGain = s.totalDeltaGain + cell.gain := rfl
    have hafter : (R.acceptVertexGain { s with movesTrace := cell :: s.movesTrace }
        cell).solution = Function.update s.solution cell.vertex cell.destinationPart := rfl
    dsimp only
    rw [htotal, hafter, hs.gain hok, hexact]
    linarith

/-- The best solution of a run: it was reached by the first moves of the trace. -/
structure BestOf (R : Refiner d k) (fresh : Prop) (start : Refining d)
    (trace : List VertexGain) (best : Best) (earlier : List VertexGain) : Prop where
  suffix : earlier <:+ trace
  vertexId : best.vertexId = earlier.head?.map VertexGain.vertex
  gain : fresh → best.gain = R.cost start.solution - R.cost (replay start.solution earlier)
  nonneg : 0 ≤ best.gain

/-- No candidate of the run is stale. -/
def picksFresh (R : Refiner d k) (refreshed : Nat → Bool) (blocks : List Nat) :
    Nat → Refining d → Bool
  | 0, _ => true
  | n + 1, s =>
      match R.pickMoveKWay s with
      | none => true
      | some cell =>
          !stale R refreshed s cell.vertex &&
            picksFresh R refreshed blocks n (R.moveStep blocks (R.refresh refreshed) s cell)

/-- The run of moves. -/
theorem moves_invariant (hH : R.hgraph.Simple) {refreshed : Nat → Bool} {blocks : List Nat}
    {fresh : Prop} (hblocks : blocks.Nodup) (hparts : ∀ b ∈ blocks, b < R.numParts) {start : Refining d}
    (hrange : ∀ v < R.hgraph.numVertices, start.solution v < R.numParts) (n : Nat)
    {s : Refining d} {best : Best} {earlier : List VertexGain}
    (hs : Invariant R refreshed blocks fresh start s)
    (hbest : BestOf R fresh start s.movesTrace best earlier)
    (hfresh : fresh → picksFresh R refreshed blocks n s = true) :
    let result := R.moves blocks (R.refresh refreshed) n s best
    Invariant R refreshed blocks fresh start result.1 ∧
      ∃ earlier, BestOf R fresh start result.1.movesTrace result.2 earlier := by
  induction n generalizing s best earlier with
  | zero => exact ⟨hs, earlier, hbest⟩
  | succ n ih =>
      rw [picksFresh] at hfresh
      rw [moves]
      cases hpick : R.pickMoveKWay s with
      | none => exact ⟨hs, earlier, hbest⟩
      | some cell =>
          simp only [hpick, Bool.and_eq_true, Bool.not_eq_true'] at hfresh
          have hcell := fun h => (hfresh h).1
          have hrest := fun h => (hfresh h).2
          obtain ⟨hmoved, htrace⟩ := hs.moveStep hH hblocks hparts hrange hpick hcell
          dsimp only
          split
          · -- the move reaches the best solution so far
            rename_i hbetter
            have hsolution := hmoved.keeps.solution_eq
            have hreached : BestOf R fresh start
                (R.moveStep blocks (R.refresh refreshed) s cell).movesTrace
                ⟨(R.moveStep blocks (R.refresh refreshed) s cell).totalDeltaGain,
                  some cell.vertex⟩ (cell :: s.movesTrace) := by
              refine ⟨?_, rfl, ?_, hbest.nonneg.trans hbetter⟩
              · rw [htrace]
              · rw [← htrace, ← hsolution]
                exact hmoved.gain
            exact ih hmoved hreached hrest
          · refine ih hmoved ⟨?_, hbest.vertexId, hbest.gain, hbest.nonneg⟩ hrest
            rw [htrace]
            exact hbest.suffix.trans (List.suffix_cons cell s.movesTrace)

/-- The moves after the best one are taken back. -/
theorem rollBack_keeps (hH : R.hgraph.Simple) {start : Refining d} {earlier : List VertexGain}
    (later : List VertexGain) {s : Refining d} (htrail : Trail R start (later ++ earlier))
    (hs : Keeps R s (replay start.solution (later ++ earlier))) :
    Keeps R (R.rollBack (earlier.head?.map VertexGain.vertex) (later ++ earlier) s)
      (replay start.solution earlier) := by
  induction later generalizing s with
  | nil =>
      cases earlier with
      | nil => exact hs
      | cons cell earlier =>
          have hbest : some cell.vertex = (cell :: earlier).head?.map VertexGain.vertex := rfl
          rw [List.nil_append, rollBack, if_pos hbest]
          exact hs
  | cons cell later ih =>
      obtain ⟨⟨-, hlt, -, hsource, hne, hnew⟩, htrail⟩ := htrail
      rw [List.cons_append, rollBack, if_neg]
      · exact ih htrail (hs.rollBackVertexGain hH hlt hsource hne)
      · -- the vertex of the best move is another one
        intro h
        obtain ⟨move, hmove, hvertex⟩ := Option.map_eq_some_iff.mp h.symm
        exact hnew move (List.mem_append_right _ (List.mem_of_mem_head? hmove)) hvertex

/-! ### Passes -/

/-- What a pass is called with: balance and degrees are those of the solution, and fixed vertices
are marked as visited. -/
structure Ready (R : Refiner d k) (s : Refining d) : Prop where
  blockBalance : s.blockBalance = R.hgraph.blockBalance s.solution
  netDegs : s.netDegs = R.degreesOf s.solution
  range : ∀ v < R.hgraph.numVertices, s.solution v < R.numParts
  fixed : ∀ v, 0 ≤ R.hgraph.fixedBlock v → s.visited v = true

/-- The state in which `Refine` calls the first pass on a solution. -/
def start (R : Refiner d k) (solution : Partitions) : Refining d where
  buckets _ := .empty
  movesTrace := []
  totalDeltaGain := 0
  visited v := decide (0 ≤ R.hgraph.fixedBlock v)
  solution := solution
  blockBalance := R.hgraph.blockBalance solution
  netDegs := R.degreesOf solution

theorem ready_start {solution : Partitions}
    (hrange : ∀ v < R.hgraph.numVertices, solution v < R.numParts) : R.Ready (R.start solution) :=
  ⟨rfl, rfl, hrange, fun _ h => decide_eq_true h⟩

/-- What a pass leaves: balance and degrees are those of the solution, and fixed vertices have not
moved. -/
structure Sound (R : Refiner d k) (s s' : Refining d) : Prop where
  blockBalance : s'.blockBalance = R.hgraph.blockBalance s'.solution
  netDegs : s'.netDegs = R.degreesOf s'.solution
  fixed : ∀ v, 0 ≤ R.hgraph.fixedBlock v → s'.solution v = s.solution v

/-- The part that both passes share. -/
theorem refineBlocks_sound (hH : R.hgraph.Simple) (refreshed : Nat → Bool)
    {blocks boundary : List Nat} (hblocks : blocks.Nodup) (hparts : ∀ b ∈ blocks, b < R.numParts)
    {s : Refining d} (hs : R.Ready s) (hnodup : boundary.Nodup)
    (hboundary : ∀ v ∈ boundary, v < R.hgraph.numVertices ∧ s.visited v = false)
    (hempty : ∀ b ∈ blocks, s.buckets b = .empty)
    (hidle : ∀ b < R.numParts, b ∉ blocks → (s.buckets b).active = false) :
    let result := R.refineBlocks blocks boundary (R.refresh refreshed) 0 s
    R.Sound s result.2 ∧ 0 ≤ result.1 ∧
      (R.picksFresh refreshed blocks R.maxMove (R.initializeGainBuckets blocks boundary s) = true →
        result.1 = R.cost s.solution - R.cost result.2.solution) := by
  obtain ⟨buckets, hfilled, hbuckets⟩ := initializeGainBuckets_buckets refreshed
    hblocks hnodup hboundary hempty hidle
  set filled := R.initializeGainBuckets blocks boundary s with hdef
  have hinvariant : Invariant R refreshed blocks
      (R.picksFresh refreshed blocks R.maxMove filled = true) s filled := by
    rw [hfilled] at hbuckets ⊢
    refine ⟨trivial, ⟨rfl, hs.blockBalance, hs.netDegs⟩, fun v => ?_, fun _ => ?_, hbuckets⟩
    · exact ⟨fun h => ⟨h, fun move hmove => by cases hmove⟩, And.left⟩
    · exact (sub_self _).symm
  have hbest : BestOf R (R.picksFresh refreshed blocks R.maxMove filled = true) s
      filled.movesTrace ⟨0, none⟩ [] :=
    ⟨List.nil_suffix, rfl, fun _ => (sub_self _).symm, le_refl _⟩
  obtain ⟨hmoved, earlier, hsuffix, hvertex, hgain, hnonneg⟩ :=
    moves_invariant hH hblocks hparts hs.range R.maxMove hinvariant hbest id
  obtain ⟨later, htrace⟩ := hsuffix
  have htrail := hmoved.trail
  have hkeeps := hmoved.keeps
  rw [← htrace] at htrail hkeeps
  have hback := rollBack_keeps hH later htrail hkeeps
  rw [htrace, ← hvertex] at hback
  refine ⟨⟨?_, ?_, fun v hv => ?_⟩, hnonneg, fun hfresh => ?_⟩
  · exact hback.blockBalance.trans (congrArg _ hback.solution_eq.symm)
  · exact hback.netDegs.trans (congrArg _ hback.solution_eq.symm)
  · exact (congrFun hback.solution_eq v).trans
      (htrail.of_append.replay_fixed (hs.fixed v hv))
  · exact (hgain hfresh).trans (congrArg _ (congrArg _ hback.solution_eq.symm))

theorem verticesOn_nodup (boundaryNet visited : Nat → Bool) :
    (R.verticesOn boundaryNet visited).Nodup := List.nodup_range.filter _

theorem verticesOn_free {boundaryNet visited : Nat → Bool} {v : Nat}
    (hv : v ∈ R.verticesOn boundaryNet visited) :
    v < R.hgraph.numVertices ∧ visited v = false := by
  unfold verticesOn at hv
  rw [List.mem_filter, List.mem_range, Bool.and_eq_true, Bool.not_eq_true'] at hv
  exact ⟨hv.1, hv.2.1⟩

/-- If all neighbors are refreshed, no gain is stale. -/
theorem picksFresh_all (blocks : List Nat) (n : Nat) (s : Refining d) :
    R.picksFresh (fun _ => true) blocks n s = true := by
  induction n generalizing s with
  | zero => rfl
  | succ n ih =>
      rw [picksFresh]
      split
      · rfl
      · rw [ih, Bool.and_true]
        rfl

/-- No candidate of the run of `PerformPairFM` is outside of both blocks and has a neighbor that was
moved before it. -/
def pairPicksFresh (R : Refiner d k) (pair : Nat × Nat) (s : Refining d) : Bool :=
  R.picksFresh (fun b => decide (b = pair.1 ∨ b = pair.2)) [pair.1, pair.2] R.maxMove
    (R.initializeGainBuckets [pair.1, pair.2]
      (R.findBoundaryVerticesPair s.netDegs s.visited pair) (clearPair pair s))

end Refiner

open Refiner

/-- **Both passes keep balance, degrees and fixed vertices, and never report a negative gain; the
gain is the decrease of the cut cost, for a pair of blocks as long as no stale gain is picked.** -/
theorem fm_passes {hyperedges : List (List Nat)} {vertexWeights : List (Weights d)}
    {hyperedgeWeights : List (Weights k)} {fixedAttr : List Int} {R : Refiner d k}
    (hrows : Hypergraph.Rows hyperedges vertexWeights hyperedgeWeights)
    (hgraph : R.hgraph = .make hyperedges vertexWeights hyperedgeWeights fixedAttr)
    {s : Refining d} (hs : R.Ready s) :
    (R.violatesBalance s.blockBalance = false →
      R.Sound s (R.pass s).2 ∧ 0 ≤ (R.pass s).1 ∧
        (R.pass s).1 = R.hgraph.cutCost R.eWtFactors s.solution -
          R.hgraph.cutCost R.eWtFactors (R.pass s).2.solution) ∧
    ∀ pair : Nat × Nat, pair.1 ≠ pair.2 → pair.1 < R.numParts → pair.2 < R.numParts →
      (∀ b < R.numParts, b ≠ pair.1 → b ≠ pair.2 → (s.buckets b).active = false) →
      R.Sound s (R.performPairFM pair s).2 ∧ 0 ≤ (R.performPairFM pair s).1 ∧
        (R.pairPicksFresh pair s = true →
          (R.performPairFM pair s).1 = R.hgraph.cutCost R.eWtFactors s.solution -
            R.hgraph.cutCost R.eWtFactors (R.performPairFM pair s).2.solution) := by
  have hH : R.hgraph.Simple := by
    rw [hgraph]
    exact hrows.simple fixedAttr
  constructor
  · intro hbalance
    unfold Refiner.pass
    dsimp only
    split
    · exact ⟨⟨hs.blockBalance, hs.netDegs, fun _ _ => rfl⟩, le_refl _, (sub_self _).symm⟩
    · rw [hbalance]
      obtain ⟨hsound, hnonneg, hgain⟩ := refineBlocks_sound hH (fun _ => true)
        List.nodup_range (fun b hb => List.mem_range.mp hb)
        (s := { s with buckets := fun _ => .empty })
        ⟨hs.blockBalance, hs.netDegs, hs.range, hs.fixed⟩
        (verticesOn_nodup _ _) (fun v hv => verticesOn_free hv) (fun b _ => rfl)
        (fun b _ _ => rfl)
      exact ⟨⟨hsound.blockBalance, hsound.netDegs, hsound.fixed⟩, hnonneg,
        hgain (picksFresh_all _ _ _)⟩
  · intro pair hne hfirst hsecond hidle
    have hnodup : [pair.1, pair.2].Nodup := by
      simpa using hne
    obtain ⟨hsound, hnonneg, hgain⟩ := refineBlocks_sound hH
      (fun b => decide (b = pair.1 ∨ b = pair.2)) hnodup
      (fun b hb => by
        rcases List.mem_cons.mp hb with rfl | hb
        · exact hfirst
        · rw [List.mem_singleton.mp hb]
          exact hsecond)
      (s := clearPair pair s) ⟨hs.blockBalance, hs.netDegs, hs.range, hs.fixed⟩
      (verticesOn_nodup _ _) (fun v hv => verticesOn_free hv)
      (fun b hb => by
        unfold clearPair
        dsimp only
        rcases List.mem_cons.mp hb with rfl | hb
        · rw [Function.update_of_ne hne, Function.update_self]
        · rw [List.mem_singleton.mp hb, Function.update_self])
      (fun b hlt hb => by
        rw [List.mem_cons, List.mem_singleton, not_or] at hb
        unfold clearPair
        dsimp only
        rw [Function.update_of_ne hb.2, Function.update_of_ne hb.1]
        exact hidle b hlt hb.1 hb.2)
    exact ⟨⟨hsound.blockBalance, hsound.netDegs, hsound.fixed⟩, hnonneg, hgain⟩

/-- A triangle of two free vertices and a fixed one, of which one free vertex is apart. -/
def triangle : Refiner 1 1 where
  hgraph := .make [[0, 1], [1, 2], [0, 2]] (List.replicate 3 fun _ => 1)
    (List.replicate 3 fun _ => 1) [0, -1, -1]
  numParts := 2
  maxMove := 2
  totalCorkingPasses := 25
  eWtFactors _ := 1
  upper _ _ := 3
  lower _ _ := 0

theorem triangle_passes :
    let s := triangle.start fun v => if v = 1 then 1 else 0
    ((triangle.pass s).1 = 2 ∧ triangle.cost s.solution = 2) ∧
      (triangle.performPairFM (0, 1) s).1 =
        triangle.hgraph.cutCost triangle.eWtFactors s.solution -
          triangle.hgraph.cutCost triangle.eWtFactors
            (triangle.performPairFM (0, 1) s).2.solution := by
  have hrows : Hypergraph.Rows [[0, 1], [1, 2], [0, 2]]
      (List.replicate 3 fun _ : Fin 1 => (1 : ℚ)) (List.replicate 3 fun _ : Fin 1 => (1 : ℚ)) :=
    ⟨rfl, by decide, by decide⟩
  have hready : triangle.Ready (triangle.start fun v => if v = 1 then 1 else 0) :=
    ready_start (by decide)
  obtain ⟨hpass, hpair⟩ := fm_passes hrows (R := triangle) rfl hready
  obtain ⟨-, -, hgain⟩ := hpass (by decide +kernel)
  obtain ⟨-, -, hexact⟩ :=
    hpair (0, 1) (by decide) (by decide) (by decide) fun b hb h0 h1 => rfl
  refine ⟨⟨hgain.trans (by decide +kernel), by decide +kernel⟩, hexact (by decide +kernel)⟩

/-- Two vertices of the third block are moved into the first one of a pair: they share a hyperedge. -/
def thirdBlock : Refiner 1 1 where
  hgraph := .make [[0, 2, 3], [1, 2, 3], [0, 1], [0, 4], [1, 4]] (List.replicate 5 fun _ => 1)
    [fun _ => 1, fun _ => 1, fun _ => 1, fun _ => 5, fun _ => 3] []
  numParts := 3
  maxMove := 2
  totalCorkingPasses := 25
  eWtFactors _ := 1
  upper _ _ := 5
  lower _ _ := 0

theorem stale_gain :
    let s := thirdBlock.start fun v => [2, 2, 0, 1, 0].getD v 0
    thirdBlock.violatesBalance s.blockBalance = false ∧
      (thirdBlock.performPairFM (0, 1) s).1 = 6 ∧
      thirdBlock.hgraph.cutCost thirdBlock.eWtFactors s.solution -
        thirdBlock.hgraph.cutCost thirdBlock.eWtFactors
          (thirdBlock.performPairFM (0, 1) s).2.solution = 8 := by
  decide +kernel

end OpenRoad.Par
