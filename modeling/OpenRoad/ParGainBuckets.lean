import OpenRoad.ParVertexGain

/-!
The gain buckets during a pass: which gains they hold, and which of these are still those of the
present degrees after a move.
-/

namespace OpenRoad.Par

open PriorityQueue

variable {d k : Nat}

namespace Refiner

variable {R : Refiner d k}

/-! ### One bucket -/

theorem calculateVertexGain_congr {netDegs netDegs' : Nat → Nat → Int} {v : Nat}
    (h : ∀ e ∈ R.hgraph.edges v, netDegs e = netDegs' e) (fromPid toPid : Nat) :
    R.calculateVertexGain netDegs v fromPid toPid =
      R.calculateVertexGain netDegs' v fromPid toPid := by
  have hscore : ∀ e ∈ R.hgraph.edges v,
      R.edgeScore netDegs fromPid toPid e = R.edgeScore netDegs' fromPid toPid e := by
    intro e he
    unfold edgeScore connectivity
    rw [h e he]
  unfold calculateVertexGain
  rw [List.map_congr_left hscore]

/-- The gain of moving a vertex from its block into another one. -/
def gainInto (R : Refiner d k) (s : Refining d) (toPid v : Nat) : VertexGain :=
  R.calculateVertexGain s.netDegs v (s.solution v) toPid

/-- A bucket is given the gain of a vertex that it does not hold. -/
theorem foldl_insert {boundary : List Nat} (hnodup : boundary.Nodup) (s : Refining d) (toPid : Nat)
    {q : PriorityQueue} (hq : ({ q with active := false } : PriorityQueue).Good R.hgraph)
    (hnew : ∀ v ∈ boundary, q.lookup v = none) :
    let filled := boundary.foldl (fun bucket v =>
      if s.solution v = toPid then bucket
      else bucket.insertIntoPQ R.hgraph (R.calculateVertexGain s.netDegs v (s.solution v) toPid)) q
    ({ filled with active := false } : PriorityQueue).Good R.hgraph ∧
      filled.active = q.active ∧
      ∀ v, filled.lookup v =
        if v ∈ boundary ∧ s.solution v ≠ toPid then some (R.gainInto s toPid v)
        else q.lookup v := by
  induction boundary generalizing q with
  | nil =>
      refine ⟨hq, rfl, fun v => ?_⟩
      rw [if_neg fun h => List.not_mem_nil h.1]
      rfl
  | cons u boundary ih =>
      obtain ⟨hu, hboundary⟩ := List.nodup_cons.mp hnodup
      rw [List.foldl_cons]
      split
      · rename_i hsame
        obtain ⟨hgood, hactive, hlookup⟩ := ih hboundary hq fun v hv =>
          hnew v (List.mem_cons_of_mem _ hv)
        refine ⟨hgood, hactive, fun v => ?_⟩
        rw [hlookup v]
        by_cases hvu : v = u
        · subst hvu
          rw [if_neg fun h => hu h.1, if_neg fun h => h.2 hsame]
        · simp [hvu]
      · rename_i hdiff
        have hlookup_u : ({ q with active := false } : PriorityQueue).lookup
            (R.calculateVertexGain s.netDegs u (s.solution u) toPid).vertex = none :=
          hnew u List.mem_cons_self
        obtain ⟨hgood', hlookup'⟩ := hq.insertIntoPQ hlookup_u
        set inserted := q.insertIntoPQ R.hgraph
          (R.calculateVertexGain s.netDegs u (s.solution u) toPid) with hinserted
        have hafter : ∀ v, inserted.lookup v =
            if v = u then some (R.gainInto s toPid u) else q.lookup v := by
          intro v
          exact (congrFun hlookup' v).trans (Function.update_apply _ _ _ _)
        obtain ⟨hgood, hactive, hlookup⟩ := ih (q := inserted) hboundary hgood' fun v hv => by
          have hvu : v ≠ u := fun h => hu (h ▸ hv)
          exact (hafter v).trans ((if_neg hvu).trans (hnew v (List.mem_cons_of_mem _ hv)))
        refine ⟨hgood, hactive, fun v => ?_⟩
        rw [hlookup v]
        by_cases hvu : v = u
        · subst hvu
          rw [if_neg fun h => hu h.1, if_pos ⟨List.mem_cons_self, hdiff⟩]
          exact (hafter v).trans (if_pos rfl)
        · have hstep := (hafter v).trans (if_neg hvu)
          simp only [List.mem_cons, hvu, false_or]
          split
          · rfl
          · exact hstep

/-- A bucket is told the present gains of some vertices. -/
theorem foldl_update (s : Refining d) (toPid : Nat) (neighbors : List Nat) {q : PriorityQueue}
    (hq : q.Good R.hgraph) :
    let updated := neighbors.foldl (fun bucket v =>
      if s.solution v = toPid then bucket
      else
        let cell := R.calculateVertexGain s.netDegs v (s.solution v) toPid
        if (bucket.heap.position v).isSome then bucket.changePriority R.hgraph v cell
        else bucket.insertIntoPQ R.hgraph cell) q
    updated.Good R.hgraph ∧
      ∀ v, updated.lookup v =
        if v ∈ neighbors ∧ s.solution v ≠ toPid then some (R.gainInto s toPid v)
        else q.lookup v := by
  induction neighbors generalizing q with
  | nil =>
      refine ⟨hq, fun v => ?_⟩
      rw [if_neg fun h => List.not_mem_nil h.1]
      rfl
  | cons u neighbors ih =>
      rw [List.foldl_cons]
      split
      · rename_i hsame
        obtain ⟨hgood, hlookup⟩ := ih hq
        refine ⟨hgood, fun v => ?_⟩
        rw [hlookup v]
        by_cases hvu : v = u
        · subst hvu
          rw [if_neg fun h => h.2 hsame, if_neg fun h => h.2 hsame]
        · simp [hvu]
      · rename_i hdiff
        -- the gain of `u` is replaced if it is there, else inserted
        have hone : ∃ told : PriorityQueue,
            told = (let cell := R.calculateVertexGain s.netDegs u (s.solution u) toPid
              if (q.heap.position u).isSome then q.changePriority R.hgraph u cell
              else q.insertIntoPQ R.hgraph cell) ∧
            told.Good R.hgraph ∧
            told.lookup = Function.update q.lookup u (some (R.gainInto s toPid u)) := by
          refine ⟨_, rfl, ?_⟩
          dsimp only
          split
          · rename_i hsome
            obtain ⟨index, hindex⟩ := Option.isSome_iff_exists.mp hsome
            have hold : q.lookup u = some (q.heap.entries index) := by
              unfold PriorityQueue.lookup IndexedHeap.Heap.lookup
              rw [hindex]
              rfl
            exact hq.changePriority hold rfl
          · rename_i hnone
            have hnew : q.lookup u = none := by
              unfold PriorityQueue.lookup IndexedHeap.Heap.lookup
              rw [Option.not_isSome_iff_eq_none.mp hnone]
              rfl
            exact hq.insertIntoPQ hnew
        obtain ⟨told, htold, hgood', hlookup'⟩ := hone
        rw [← htold]
        obtain ⟨hgood, hlookup⟩ := ih hgood'
        refine ⟨hgood, fun v => ?_⟩
        rw [hlookup v, hlookup']
        by_cases hvu : v = u
        · subst hvu
          rw [Function.update_self, ite_self, if_pos ⟨List.mem_cons_self, hdiff⟩]
        · rw [Function.update_of_ne hvu]
          simp only [List.mem_cons, hvu, false_or]

/-- A queue holds the present gains of some vertices, beside what another one holds. -/
def Holds (R : Refiner d k) (s : Refining d) (toPid : Nat) (vertices : List Nat)
    (old new : PriorityQueue) : Prop :=
  new.Good R.hgraph ∧ ∀ v, new.lookup v =
    if v ∈ vertices ∧ s.solution v ≠ toPid then some (R.gainInto s toPid v) else old.lookup v

theorem initializeSingleGainBucket_spec {s : Refining d} {toPid : Nat} {boundary : List Nat}
    (hnodup : boundary.Nodup) (hempty : s.buckets toPid = .empty) :
    ∃ q, R.initializeSingleGainBucket toPid boundary s =
        { s with buckets := Function.update s.buckets toPid q } ∧
      Holds R s toPid boundary (s.buckets toPid) q := by
  refine ⟨_, rfl, ?_⟩
  obtain ⟨hgood, -, hlookup⟩ := foldl_insert (R := R) hnodup s toPid
    (q := { s.buckets toPid with active := true })
    (by rw [hempty]; exact good_empty) (fun v _ => by rw [hempty]; rfl)
  split
  · exact ⟨hgood, hlookup⟩
  · rename_i hcount
    exact ⟨⟨hgood.valid, hgood.ordered, fun _ => Nat.pos_of_ne_zero hcount⟩, hlookup⟩

theorem updateSingleGainBucket_spec {s : Refining d} {toPid : Nat} (neighbors : List Nat)
    (hgood : (s.buckets toPid).Good R.hgraph) :
    ∃ q, R.updateSingleGainBucket toPid neighbors s =
        { s with buckets := Function.update s.buckets toPid q } ∧
      Holds R s toPid neighbors (s.buckets toPid) q :=
  ⟨_, rfl, foldl_update s toPid neighbors hgood⟩

/-- A step on the bucket of each block is what happens to every bucket. -/
theorem foldl_blocks (step : Refining d → Nat → Refining d) (pre : Nat → PriorityQueue → Prop)
    (post : Nat → PriorityQueue → PriorityQueue → Prop) {s : Refining d}
    (hstep : ∀ b buckets, pre b (buckets b) →
      ∃ q, step { s with buckets := buckets } b =
          { s with buckets := Function.update buckets b q } ∧ post b (buckets b) q)
    {blocks : List Nat} (hnodup : blocks.Nodup) (hpre : ∀ b ∈ blocks, pre b (s.buckets b)) :
    ∃ buckets, blocks.foldl step s = { s with buckets := buckets } ∧
      (∀ b, b ∉ blocks → buckets b = s.buckets b) ∧
      ∀ b ∈ blocks, post b (s.buckets b) (buckets b) := by
  have hgeneral : ∀ start : Nat → PriorityQueue, (∀ b ∈ blocks, pre b (start b)) →
      ∃ buckets, blocks.foldl step { s with buckets := start } = { s with buckets := buckets } ∧
        (∀ b, b ∉ blocks → buckets b = start b) ∧
        ∀ b ∈ blocks, post b (start b) (buckets b) := by
    induction blocks with
    | nil => exact fun start _ => ⟨start, rfl, fun _ _ => rfl, fun b hb => by cases hb⟩
    | cons a blocks ih =>
        intro start hstart
        obtain ⟨ha, hblocks⟩ := List.nodup_cons.mp hnodup
        obtain ⟨q, hq, hpost⟩ := hstep a start (hstart a List.mem_cons_self)
        have hrest : ∀ b ∈ blocks, pre b (Function.update start a q b) := by
          intro b hb
          have hba : b ≠ a := fun h => ha (h ▸ hb)
          rw [Function.update_of_ne hba]
          exact hstart b (List.mem_cons_of_mem _ hb)
        obtain ⟨buckets, hfold, hother, hblock⟩ :=
          ih hblocks (fun b hb => hpre b (List.mem_cons_of_mem _ hb)) _ hrest
        refine ⟨buckets, ?_, ?_, ?_⟩
        · rw [List.foldl_cons, hq, hfold]
        · intro b hb
          rw [List.mem_cons, not_or] at hb
          rw [hother b hb.2, Function.update_of_ne hb.1]
        · intro b hb
          rcases List.mem_cons.mp hb with rfl | hb
          · rw [hother b ha, Function.update_self]
            exact hpost
          · have hba : b ≠ a := fun h => ha (h ▸ hb)
            have := hblock b hb
            rwa [Function.update_of_ne hba] at this
  exact hgeneral s.buckets hpre

/-! ### The gains that the buckets hold -/

/-- A vertex is on a hyperedge of a vertex. -/
def adjacent (H : Hypergraph d k) (u v : Nat) : Bool :=
  (H.edges u).any fun e => decide (v ∈ H.vertices e)

theorem adjacent_iff {H : Hypergraph d k} {u v : Nat} :
    adjacent H u v = true ↔ ∃ e ∈ H.edges u, v ∈ H.vertices e := by
  unfold adjacent
  simp only [List.any_eq_true, decide_eq_true_eq]

/-- A vertex in a block whose vertices are not refreshed has a neighbor that was moved. -/
def stale (R : Refiner d k) (refreshed : Nat → Bool) (s : Refining d) (v : Nat) : Bool :=
  !refreshed (s.solution v) && s.movesTrace.any fun move => adjacent R.hgraph move.vertex v

/-- What holds of the gain of a vertex in the bucket of a block. -/
structure Cell (R : Refiner d k) (refreshed : Nat → Bool) (s : Refining d) (b v : Nat)
    (cell : VertexGain) : Prop where
  lt : v < R.hgraph.numVertices
  unvisited : s.visited v = false
  ne : s.solution v ≠ b
  vertex : cell.vertex = v
  source : cell.sourcePart = s.solution v
  destination : cell.destinationPart = b
  current : stale R refreshed s v = false → cell = R.gainInto s b v

/-- The buckets of the blocks are right, those of other blocks are not in use. -/
structure Buckets (R : Refiner d k) (refreshed : Nat → Bool) (blocks : List Nat)
    (s : Refining d) : Prop where
  good : ∀ b ∈ blocks, (s.buckets b).Good R.hgraph
  idle : ∀ b < R.numParts, b ∉ blocks → (s.buckets b).active = false
  cells : ∀ b ∈ blocks, ∀ v cell, (s.buckets b).lookup v = some cell →
    Cell R refreshed s b v cell

/-- A gain that is computed now. -/
theorem cell_gainInto {refreshed : Nat → Bool} {s : Refining d} {b v : Nat}
    (hlt : v < R.hgraph.numVertices) (hvisited : s.visited v = false) (hne : s.solution v ≠ b) :
    Cell R refreshed s b v (R.gainInto s b v) :=
  ⟨hlt, hvisited, hne, rfl, rfl, rfl, fun _ => rfl⟩

theorem initializeGainBuckets_buckets (refreshed : Nat → Bool) {blocks boundary : List Nat}
    {s : Refining d} (hblocks : blocks.Nodup) (hnodup : boundary.Nodup)
    (hboundary : ∀ v ∈ boundary, v < R.hgraph.numVertices ∧ s.visited v = false)
    (hempty : ∀ b ∈ blocks, s.buckets b = .empty)
    (hidle : ∀ b < R.numParts, b ∉ blocks → (s.buckets b).active = false) :
    ∃ buckets, R.initializeGainBuckets blocks boundary s =
        { s with movesTrace := [], totalDeltaGain := 0, buckets := buckets } ∧
      Buckets R refreshed blocks (R.initializeGainBuckets blocks boundary s) := by
  set start : Refining d := { s with movesTrace := [], totalDeltaGain := 0 } with hstart
  obtain ⟨buckets, hfold, hother, hheld⟩ := foldl_blocks (s := start)
    (fun s toPid => R.initializeSingleGainBucket toPid boundary s) (fun _ q => q = .empty)
    (fun b => Holds R start b boundary) (fun b buckets h => 
      initializeSingleGainBucket_spec (s := { start with buckets := buckets }) hnodup h)
    hblocks hempty
  have hresult : R.initializeGainBuckets blocks boundary s =
      { s with movesTrace := [], totalDeltaGain := 0, buckets := buckets } := hfold
  refine ⟨buckets, hresult, ?_⟩
  rw [hresult]
  constructor
  · exact fun b hb => (hheld b hb).1
  · intro b hlt hb
    dsimp only
    rw [hother b hb]
    exact hidle b hlt hb
  · intro b hb v cell hcell
    have hlookup := (hheld b hb).2 v
    rw [hempty b hb] at hlookup
    rw [hlookup] at hcell
    split at hcell
    · rename_i h
      obtain rfl := Option.some.inj hcell
      exact cell_gainInto (hboundary v h.1).1 (hboundary v h.1).2 h.2
    · cases hcell

/-! ### A move -/

theorem mem_neighborsIn {inBlocks visited : Nat → Bool} {solution : Partitions} {u v : Nat} :
    v ∈ R.neighborsIn inBlocks visited solution u ↔
      adjacent R.hgraph u v = true ∧ visited v = false ∧ inBlocks (solution v) = true := by
  unfold neighborsIn
  rw [List.mem_insertionSort, List.mem_dedup, List.mem_filter, List.mem_flatMap, Bool.and_eq_true,
    Bool.not_eq_true', adjacent_iff]

/-- The neighbors in certain blocks that a refiner refreshes. -/
def refresh (R : Refiner d k) (refreshed : Nat → Bool) (s : Refining d) (v : Nat) : List Nat :=
  R.neighborsIn refreshed s.visited s.solution v

/-- Vertices that share no hyperedge keep their gains. -/
theorem gainInto_of_not_adjacent (hH : R.hgraph.Simple) {s s' : Refining d} {u v less more : Nat}
    (hnetDegs : s'.netDegs = R.shiftDegrees u less more s.netDegs)
    (hsolution : s'.solution v = s.solution v) (hadjacent : adjacent R.hgraph u v = false)
    (b : Nat) : R.gainInto s' b v = R.gainInto s b v := by
  unfold gainInto
  rw [hsolution, hnetDegs]
  apply calculateVertexGain_congr
  intro e he
  funext c
  rw [shiftDegrees_apply hH, if_neg, add_zero]
  intro hu
  rw [← Bool.not_eq_true] at hadjacent
  exact hadjacent (adjacent_iff.mpr ⟨e, hu, (hH.mem_edges v e).mp he⟩)

theorem remove_active {H : Hypergraph d k} {q : PriorityQueue} {v : Nat}
    (h : q.active = false) : (q.remove H v).active = false := by
  unfold PriorityQueue.remove
  split
  · exact h
  · dsimp only
    split
    · rfl
    · exact h

/-- The move of a vertex: its cells go, the neighbors that are refreshed have new ones. -/
theorem moveStep_buckets (hH : R.hgraph.Simple) {refreshed : Nat → Bool} {blocks : List Nat}
    (hblocks : blocks.Nodup) (hparts : ∀ b ∈ blocks, b < R.numParts) {s : Refining d}
    (hs : Buckets R refreshed blocks s) (cell : VertexGain) :
    ∃ buckets, R.moveStep blocks (R.refresh refreshed) s cell =
        { R.acceptVertexGain { s with movesTrace := cell :: s.movesTrace } cell with
          buckets := buckets } ∧
      Buckets R refreshed blocks (R.moveStep blocks (R.refresh refreshed) s cell) := by
  set accepted := R.acceptKWayMove s cell with haccepted
  set neighbors := R.refresh refreshed accepted cell.vertex with hneighbors
  have hremoved : ∀ b < R.numParts,
      accepted.buckets b = (s.buckets b).remove R.hgraph cell.vertex := fun b hb => if_pos hb
  obtain ⟨buckets, hfold, hother, hheld⟩ := foldl_blocks (s := accepted)
    (fun s toPid => R.updateSingleGainBucket toPid neighbors s) (fun _ q => q.Good R.hgraph)
    (fun b => Holds R accepted b neighbors)
    (fun b buckets h =>
      updateSingleGainBucket_spec (s := { accepted with buckets := buckets }) neighbors h)
    hblocks (fun b hb => by
      rw [hremoved b (hparts b hb)]
      exact ((hs.good b hb).remove cell.vertex).1)
  have hresult : R.moveStep blocks (R.refresh refreshed) s cell =
      { accepted with buckets := buckets } := hfold
  refine ⟨buckets, hresult, ?_⟩
  rw [hresult]
  constructor
  · exact fun b hb => (hheld b hb).1
  · intro b hlt hb
    dsimp only
    rw [hother b hb, hremoved b hlt]
    exact remove_active (hs.idle b hlt hb)
  · intro b hb v held hlookup
    have hafter := (hheld b hb).2 v
    dsimp only at hlookup
    rw [hlookup] at hafter
    split at hafter
    · -- a neighbor that is refreshed
      rename_i h
      obtain rfl := Option.some.inj hafter
      obtain ⟨hadjacent, hvisited, -⟩ := mem_neighborsIn.mp h.1
      obtain ⟨e, -, hv⟩ := adjacent_iff.mp hadjacent
      exact cell_gainInto (s := { accepted with buckets := buckets }) (hH.vertex_lt e v hv)
        hvisited h.2
    · -- a gain from before the move
      rename_i hnot
      rw [hremoved b (hparts b hb), ((hs.good b hb).remove cell.vertex).2,
        Function.update_apply] at hafter
      split at hafter
      · cases hafter
      · rename_i hne
        obtain ⟨hlt, hvisited, hdiff, hvertex, hsource, hdestination, hcurrent⟩ :=
          hs.cells b hb v held hafter.symm
        have hsolution : accepted.solution v = s.solution v := Function.update_of_ne hne _ _
        have hvisited' : accepted.visited v = false := by
          rw [← hvisited]
          exact Function.update_of_ne hne _ _
        refine ⟨hlt, hvisited', ?_, hvertex, ?_, hdestination, fun hfresh => ?_⟩
        · exact fun h => hdiff (hsolution.symm.trans h)
        · exact hsource.trans hsolution.symm
        · -- a vertex that is current now was current, and is no neighbor of the moved one
          have hboth : stale R refreshed s v = false ∧
              adjacent R.hgraph cell.vertex v = false := by
            have htrace : accepted.movesTrace = cell :: s.movesTrace := rfl
            unfold stale at hfresh ⊢
            dsimp only at hfresh
            rw [hsolution, htrace, List.any_cons] at hfresh
            cases hrefreshed : refreshed (s.solution v) with
            | true =>
                refine ⟨rfl, ?_⟩
                rw [← Bool.not_eq_true]
                intro hadjacent
                apply hnot
                refine ⟨mem_neighborsIn.mpr ⟨hadjacent, hvisited', ?_⟩,
                  fun h => hdiff (hsolution.symm.trans h)⟩
                rw [hsolution]
                exact hrefreshed
            | false =>
                rw [hrefreshed, Bool.not_false, Bool.true_and, Bool.or_eq_false_iff] at hfresh
                exact ⟨by rw [hfresh.2, Bool.and_false], hfresh.1⟩
          have hsame : R.gainInto { accepted with buckets := buckets } b v = R.gainInto s b v :=
            gainInto_of_not_adjacent hH rfl hsolution hboth.2 b
          rw [hcurrent hboth.1]
          exact hsame.symm

/-- The candidate of a pick is a gain in the bucket of a block. -/
theorem pickMoveKWay_lookup {refreshed : Nat → Bool} {blocks : List Nat} {s : Refining d}
    (hs : Buckets R refreshed blocks s) {cell : VertexGain}
    (hpick : R.pickMoveKWay s = some cell) :
    ∃ b ∈ blocks, (s.buckets b).lookup cell.vertex = some cell := by
  have hactive : ∀ b < R.numParts, (s.buckets b).active = true → b ∈ blocks := by
    intro b hb h
    by_contra hnot
    rw [hs.idle b hb hnot] at h
    cases h
  have hfold : ∀ indices : List Nat, (∀ b ∈ indices, b < R.numParts) →
      let acc := indices.foldl (R.considerBucket s) (none, -floatMax, none)
      (∀ cell, acc.1 = some cell →
        ∃ b ∈ blocks, (s.buckets b).lookup cell.vertex = some cell) ∧
      ∀ b, acc.2.2 = some b → b ∈ blocks := by
    intro indices
    induction indices using List.reverseRecOn with
    | nil =>
        intro _
        dsimp only
        constructor
        · intro cell h
          cases h
        · intro b h
          cases h
    | append_singleton indices i ih =>
        intro hindices
        obtain ⟨hcandidate, hbest⟩ := ih fun b hb => hindices b (List.mem_append_left _ hb)
        have hi : i < R.numParts :=
          hindices i (List.mem_append_right _ (List.mem_singleton_self _))
        dsimp only
        rw [List.foldl_append, List.foldl_cons, List.foldl_nil]
        unfold considerBucket
        split
        · exact ⟨hcandidate, hbest⟩
        · rename_i h
          have hin : i ∈ blocks := hactive i hi (by simpa using h)
          have hpos := (hs.good i hin).pos_of_active (by simpa using h)
          constructor
          · intro cell hcell
            dsimp only at hcell
            split at hcell
            · obtain rfl := Option.some.inj hcell
              exact ⟨i, hin, (hs.good i hin).lookup_entries hpos⟩
            · exact hcandidate cell hcell
          · intro b hb
            dsimp only at hb
            split at hb
            · obtain rfl := Option.some.inj hb
              exact hin
            · exact hbest b hb
  obtain ⟨hcandidate, hbest⟩ := hfold (List.range R.numParts) fun b hb => List.mem_range.mp hb
  unfold pickMoveKWay at hpick
  dsimp only at hpick hcandidate hbest
  split at hpick
  · rename_i hsome
    obtain rfl := Option.some.inj hpick
    exact hcandidate _ hsome
  · cases hpick
  · rename_i hsome
    have hin := hbest _ hsome
    exact ⟨_, hin, getBestCandidate_lookup (hs.good _ hin) hpick⟩

end Refiner

end OpenRoad.Par
