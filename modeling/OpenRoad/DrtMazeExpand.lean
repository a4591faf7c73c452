import OpenRoad.DrtMazeSearch

/-!
The routes that the buffers and the table of committed directions describe, during a search: the two
directions of a buffer and then the table lead back to a source, without meeting a node twice.
-/

namespace OpenRoad.Drt

namespace FlexGridGraph

variable (G : FlexGridGraph)

/-! ### Walks -/

/-- A step that the graph and the rule at the border allow. -/
def Permitted (idx : FlexMazeIdx) (dir : Dir) : Prop :=
  G.hasEdge idx dir = true ∧ G.borderPermits idx dir = true

/-- A walk from a source, as its nodes with the directions into them, the last one first. -/
inductive Walk (source : FlexMazeIdx) : List (FlexMazeIdx × Dir) → FlexMazeIdx → Prop
  | nil : Walk source [] source
  | cons {steps : List (FlexMazeIdx × Dir)} {idx : FlexMazeIdx} {dir : Dir} :
      Walk source steps idx → G.Permitted idx dir →
      Walk source ((getNextGrid idx dir, dir) :: steps) (getNextGrid idx dir)

/-- The nodes into which a walk, read backwards, does not go on in the direction before. -/
def turnPoints : Dir → List (FlexMazeIdx × Dir) → List FlexMazeIdx
  | _, [] => []
  | prevDir, (idx, dir) :: steps =>
      if dir ≠ prevDir then idx :: turnPoints dir steps else turnPoints dir steps

variable {G}

theorem Permitted.ne {idx : FlexMazeIdx} {dir : Dir} (h : G.Permitted idx dir) :
    dir ≠ .unknown := by
  rintro rfl
  exact Bool.noConfusion h.1

theorem isValid_iff {idx : FlexMazeIdx} :
    G.isValid idx = true ↔
      (0 ≤ idx.x ∧ idx.x < G.xCoords.length) ∧ (0 ≤ idx.y ∧ idx.y < G.yCoords.length) ∧
        0 ≤ idx.z ∧ idx.z < G.zHeights.length := by
  unfold isValid
  simp only [Bool.and_eq_true, decide_eq_true_eq]
  tauto

theorem isValid_east {idx : FlexMazeIdx}
    (h : (G.isValid idx && (G.nodes idx).hasEastEdge) = true) :
    G.isValid idx = true ∧ G.isValid (getNextGrid idx .E) = true := by
  obtain ⟨hvalid, hedge⟩ := Bool.and_eq_true_iff.mp h
  have hlt := G.east_lt _ hedge
  obtain ⟨hx, hy, hz⟩ := isValid_iff.mp hvalid
  exact ⟨hvalid, isValid_iff.mpr ⟨⟨Int.add_nonneg hx.1 (by decide), hlt⟩, hy, hz⟩⟩

theorem isValid_north {idx : FlexMazeIdx}
    (h : (G.isValid idx && (G.nodes idx).hasNorthEdge) = true) :
    G.isValid idx = true ∧ G.isValid (getNextGrid idx .N) = true := by
  obtain ⟨hvalid, hedge⟩ := Bool.and_eq_true_iff.mp h
  have hlt := G.north_lt _ hedge
  obtain ⟨hx, hy, hz⟩ := isValid_iff.mp hvalid
  exact ⟨hvalid, isValid_iff.mpr ⟨hx, ⟨Int.add_nonneg hy.1 (by decide), hlt⟩, hz⟩⟩

theorem isValid_up {idx : FlexMazeIdx} (h : (G.isValid idx && (G.nodes idx).hasUpEdge) = true) :
    G.isValid idx = true ∧ G.isValid (getNextGrid idx .U) = true := by
  obtain ⟨hvalid, hedge⟩ := Bool.and_eq_true_iff.mp h
  have hlt := G.up_lt _ hedge
  obtain ⟨hx, hy, hz⟩ := isValid_iff.mp hvalid
  exact ⟨hvalid, isValid_iff.mpr ⟨hx, hy, Int.add_nonneg hz.1 (by decide), hlt⟩⟩

/-- The node from which one goes back in the reverse direction. -/
theorem getNextGrid_reverse_getNextGrid (idx : FlexMazeIdx) (dir : Dir) :
    getNextGrid (getNextGrid idx dir) dir.reverse = idx := by
  rw [getNextGrid_reverse, getPrevGrid_getNextGrid]

/-- An edge leads from a node of the grid to another one. -/
theorem hasEdge_isValid {idx : FlexMazeIdx} {dir : Dir} (h : G.hasEdge idx dir = true) :
    G.isValid idx = true ∧ G.isValid (getNextGrid idx dir) = true := by
  cases dir with
  | unknown => cases h
  | E => exact isValid_east h
  | N => exact isValid_north h
  | U => exact isValid_up h
  | W =>
      obtain ⟨hnext, hidx⟩ := isValid_east h
      rw [show Dir.E = Dir.W.reverse from rfl, getNextGrid_reverse_getNextGrid] at hidx
      exact ⟨hidx, hnext⟩
  | S =>
      obtain ⟨hnext, hidx⟩ := isValid_north h
      rw [show Dir.N = Dir.S.reverse from rfl, getNextGrid_reverse_getNextGrid] at hidx
      exact ⟨hidx, hnext⟩
  | D =>
      obtain ⟨hnext, hidx⟩ := isValid_up h
      rw [show Dir.U = Dir.D.reverse from rfl, getNextGrid_reverse_getNextGrid] at hidx
      exact ⟨hidx, hnext⟩

theorem Walk.isValid {source idx : FlexMazeIdx} {steps : List (FlexMazeIdx × Dir)}
    (h : G.Walk source steps idx) : ∀ step ∈ steps, G.isValid step.1 = true := by
  induction h with
  | nil => exact fun step hstep => by cases hstep
  | cons _ hpermitted ih =>
      intro step hstep
      rcases List.mem_cons.mp hstep with rfl | hstep
      · exact (hasEdge_isValid hpermitted.1).2
      · exact ih step hstep

/-- How many nodes the grid has. -/
def numNodes (G : FlexGridGraph) : Nat :=
  G.xCoords.length * G.yCoords.length * G.zHeights.length

/-- A list of different nodes of the grid is not longer than the grid. -/
theorem length_le_numNodes {l : List FlexMazeIdx} (hnodup : l.Nodup)
    (hvalid : ∀ idx ∈ l, G.isValid idx = true) : l.length ≤ G.numNodes := by
  classical
  let grid : Finset FlexMazeIdx :=
    ((Finset.range G.xCoords.length ×ˢ Finset.range G.yCoords.length) ×ˢ
      Finset.range G.zHeights.length).image fun p => ⟨p.1.1, p.1.2, p.2⟩
  have hsubset : l.toFinset ⊆ grid := by
    intro idx hidx
    obtain ⟨hx, hy, hz⟩ := isValid_iff.mp (hvalid idx (List.mem_toFinset.mp hidx))
    apply Finset.mem_image.mpr
    refine ⟨((idx.x.toNat, idx.y.toNat), idx.z.toNat), ?_, ?_⟩
    · simp only [Finset.mem_product, Finset.mem_range]
      omega
    · obtain ⟨x, y, z⟩ := idx
      simp only [FlexMazeIdx.mk.injEq]
      dsimp only at hx hy hz
      omega
  calc l.length = l.toFinset.card := (List.toFinset_card_of_nodup hnodup).symm
    _ ≤ grid.card := Finset.card_le_card hsubset
    _ ≤ _ := Finset.card_image_le
    _ = G.numNodes := by simp [numNodes]

/-! ### Routes of the table -/

/-- The table leads back from a node to a source. -/
inductive Committed (G : FlexGridGraph) (prevDirs : PrevDirs) (source : FlexMazeIdx) :
    List (FlexMazeIdx × Dir) → FlexMazeIdx → Prop
  | source : G.srcs source = true → Committed G prevDirs source [] source
  | step {steps : List (FlexMazeIdx × Dir)} {idx : FlexMazeIdx} {dir : Dir} :
      Committed G prevDirs source steps idx → G.Permitted idx dir →
      G.srcs (getNextGrid idx dir) = false → prevDirs (getNextGrid idx dir) = dir →
      Committed G prevDirs source ((getNextGrid idx dir, dir) :: steps) (getNextGrid idx dir)

theorem Committed.walk {prevDirs : PrevDirs} {source idx : FlexMazeIdx}
    {steps : List (FlexMazeIdx × Dir)} (h : Committed G prevDirs source steps idx) :
    G.Walk source steps idx := by
  induction h with
  | source => exact .nil
  | step _ hpermitted _ _ ih => exact .cons ih hpermitted

theorem Committed.srcs_source {prevDirs : PrevDirs} {source idx : FlexMazeIdx}
    {steps : List (FlexMazeIdx × Dir)} (h : Committed G prevDirs source steps idx) :
    G.srcs source = true := by
  induction h with
  | source h => exact h
  | step _ _ _ _ ih => exact ih

theorem Committed.ne_unknown {prevDirs : PrevDirs} {source idx : FlexMazeIdx}
    {steps : List (FlexMazeIdx × Dir)} (h : Committed G prevDirs source steps idx) :
    ∀ step ∈ steps, prevDirs step.1 ≠ .unknown := by
  induction h with
  | source => exact fun step hstep => by cases hstep
  | step _ hpermitted _ hdir ih =>
      intro step hstep
      rcases List.mem_cons.mp hstep with rfl | hstep
      · rw [hdir]
        exact hpermitted.ne
      · exact ih step hstep

/-- The table only grows. -/
def Extends (prevDirs prevDirs' : PrevDirs) : Prop :=
  ∀ idx, prevDirs idx ≠ .unknown → prevDirs' idx = prevDirs idx

theorem Committed.of_extends {prevDirs prevDirs' : PrevDirs} {source idx : FlexMazeIdx}
    {steps : List (FlexMazeIdx × Dir)} (h : Committed G prevDirs source steps idx)
    (hle : Extends prevDirs prevDirs') : Committed G prevDirs' source steps idx := by
  induction h with
  | source h => exact .source h
  | step _ hpermitted hsrc hdir ih =>
      refine .step ih hpermitted hsrc ?_
      rw [hle _ (by rw [hdir]; exact hpermitted.ne), hdir]

/-! ### Routes of the elements -/

/-- The two directions of a buffer and then the table lead back from a node to a source. -/
inductive Route (G : FlexGridGraph) (prevDirs : PrevDirs) (source : FlexMazeIdx) :
    Dir → Dir → List (FlexMazeIdx × Dir) → FlexMazeIdx → Prop
  | source : G.srcs source = true → Route G prevDirs source .unknown .unknown [] source
  | first {dir : Dir} : G.srcs source = true → G.Permitted source dir →
      G.srcs (getNextGrid source dir) = false →
      Route G prevDirs source dir .unknown [(getNextGrid source dir, dir)] (getNextGrid source dir)
  | later {steps : List (FlexMazeIdx × Dir)} {idx : FlexMazeIdx} {older last : Dir} :
      Committed G prevDirs source steps idx → G.Permitted idx older →
      G.srcs (getNextGrid idx older) = false → G.Permitted (getNextGrid idx older) last →
      G.srcs (getNextGrid (getNextGrid idx older) last) = false →
      Route G prevDirs source last older
        ((getNextGrid (getNextGrid idx older) last, last) :: (getNextGrid idx older, older) ::
          steps) (getNextGrid (getNextGrid idx older) last)

/-- The route of an element. -/
def RouteOf (G : FlexGridGraph) (prevDirs : PrevDirs) (source : FlexMazeIdx)
    (grid : FlexWavefrontGrid) (steps : List (FlexMazeIdx × Dir)) : Prop :=
  Route G prevDirs source (getLastDir grid.backTraceBuffer) (getOlderDir grid.backTraceBuffer)
    steps grid.idx

theorem Route.of_extends {prevDirs prevDirs' : PrevDirs} {source idx : FlexMazeIdx}
    {last older : Dir} {steps : List (FlexMazeIdx × Dir)}
    (h : Route G prevDirs source last older steps idx) (hle : Extends prevDirs prevDirs') :
    Route G prevDirs' source last older steps idx := by
  cases h with
  | source h => exact .source h
  | first h hpermitted hsrc => exact .first h hpermitted hsrc
  | later h holder hsrc hlast hsrc' => exact .later (h.of_extends hle) holder hsrc hlast hsrc'

theorem Route.walk {prevDirs : PrevDirs} {source idx : FlexMazeIdx} {last older : Dir}
    {steps : List (FlexMazeIdx × Dir)} (h : Route G prevDirs source last older steps idx) :
    G.Walk source steps idx := by
  cases h with
  | source => exact .nil
  | first _ hpermitted => exact .cons .nil hpermitted
  | later h holder _ hlast => exact .cons (.cons h.walk holder) hlast

theorem Route.srcs_source {prevDirs : PrevDirs} {source idx : FlexMazeIdx} {last older : Dir}
    {steps : List (FlexMazeIdx × Dir)} (h : Route G prevDirs source last older steps idx) :
    G.srcs source = true := by
  cases h with
  | source h => exact h
  | first h => exact h
  | later h => exact h.srcs_source

end FlexGridGraph

end OpenRoad.Drt

/-!
What the expansion of an element does: in each direction it is kept out, dropped because the table
says otherwise about its tail, or pushed with a route that is longer by one step.
-/

namespace OpenRoad.Drt

namespace FlexGridGraph

variable {G : FlexGridGraph}

/-! ### One direction -/

/-- The node at the tail of the buffer of an element, once it has gone on. -/
def tail (grid : FlexWavefrontGrid) : FlexMazeIdx :=
  getPrevGrid grid.idx (getLastDir grid.backTraceBuffer)

/-- The table agrees with the direction that would fall out of the buffer. -/
def Agrees (prevDirs : PrevDirs) (grid : FlexWavefrontGrid) : Prop :=
  getOlderDir grid.backTraceBuffer ≠ .unknown →
    prevDirs (tail grid) = .unknown ∨
      prevDirs (tail grid) = getOlderDir grid.backTraceBuffer

/-- The table with the direction that falls out of the buffer. -/
def commit (prevDirs : PrevDirs) (grid : FlexWavefrontGrid) : PrevDirs :=
  if getOlderDir grid.backTraceBuffer = .unknown then prevDirs
  else Function.update prevDirs (tail grid) (getOlderDir grid.backTraceBuffer)

theorem extends_commit {prevDirs : PrevDirs} {grid : FlexWavefrontGrid}
    (h : Agrees prevDirs grid) : Extends prevDirs (commit prevDirs grid) := by
  intro idx hidx
  unfold commit
  split
  · rfl
  · rename_i holder
    rw [Function.update_apply]
    split
    · rename_i heq
      subst heq
      rcases h holder with hnone | hsome
      · exact absurd hnone hidx
      · exact hsome.symm
    · rfl

section

variable {s : Search} {currGrid : FlexWavefrontGrid} {dir : Dir} {dst1 dst2 : FlexMazeIdx}
  {center : Int × Int} {routeWithJumpers : Bool}

theorem getTailIdx_next :
    getTailIdx (G.nextWavefrontGrid currGrid dir dst1 dst2 center routeWithJumpers).idx
      (G.nextWavefrontGrid currGrid dir dst1 dst2 center routeWithJumpers).backTraceBuffer =
      tail currGrid := by
  have hlast : getLastDir (G.nextWavefrontGrid currGrid dir dst1 dst2 center
      routeWithJumpers).backTraceBuffer = dir := getLastDir_shiftAddBuffer _ _
  have holder : getLastDir ((G.nextWavefrontGrid currGrid dir dst1 dst2 center
      routeWithJumpers).backTraceBuffer >>> 3) = getLastDir currGrid.backTraceBuffer :=
    getOlderDir_shiftAddBuffer _ _
  unfold getTailIdx
  dsimp only
  rw [hlast, holder]
  unfold nextWavefrontGrid
  dsimp only
  rw [getPrevGrid_getNextGrid]
  rfl

/-- `expand` drops the element if the table does not agree, and else pushes it. -/
theorem expand_eq (s : Search) (currGrid : FlexWavefrontGrid) (dir : Dir)
    (dst1 dst2 : FlexMazeIdx) (center : Int × Int) (routeWithJumpers : Bool) :
    (¬Agrees s.prevDirs currGrid ∧
      G.expand s currGrid dir dst1 dst2 center routeWithJumpers = s) ∨
    (Agrees s.prevDirs currGrid ∧
      G.expand s currGrid dir dst1 dst2 center routeWithJumpers =
        { prevDirs := commit s.prevDirs currGrid
          wavefront := G.nextWavefrontGrid currGrid dir dst1 dst2 center routeWithJumpers ::
            s.wavefront }) := by
  unfold expand
  dsimp only
  rw [getTailIdx_next, shiftAddBuffer_fst]
  by_cases holder : getOlderDir currGrid.backTraceBuffer = .unknown
  · right
    refine ⟨fun h => absurd holder h, ?_⟩
    unfold commit
    rw [if_neg (not_not.mpr holder), if_pos holder]
  · rw [if_pos holder]
    by_cases htail : s.prevDirs (tail currGrid) = .unknown ∨
        s.prevDirs (tail currGrid) = getOlderDir currGrid.backTraceBuffer
    · right
      refine ⟨fun _ => htail, ?_⟩
      unfold commit
      rw [if_pos htail, if_neg holder]
    · left
      exact ⟨fun h => htail (h holder), if_neg htail⟩

/-- What `isExpandable` tests. -/
theorem isExpandable_iff {prevDirs : PrevDirs} :
    G.isExpandable prevDirs currGrid dir = true ↔
      G.Permitted currGrid.idx dir ∧ G.srcs (getNextGrid currGrid.idx dir) = false ∧
        prevDirs (getNextGrid currGrid.idx dir) = .unknown ∧
        getLastDir currGrid.backTraceBuffer ≠ dir.reverse := by
  unfold isExpandable Permitted
  dsimp only
  cases hedge : G.hasEdge currGrid.idx dir <;>
    cases hsrc : G.srcs (getNextGrid currGrid.idx dir) <;>
      by_cases hprev : prevDirs (getNextGrid currGrid.idx dir) = .unknown <;>
        by_cases hlast : getLastDir currGrid.backTraceBuffer = dir.reverse <;>
          simp [hprev, hlast]

/-! ### The route of the new element -/

/-- The element that is pushed has the route of the expanded one and one step more. -/
theorem route_next {prevDirs : PrevDirs} {source : FlexMazeIdx}
    {steps : List (FlexMazeIdx × Dir)} (hroute : G.RouteOf prevDirs source currGrid steps)
    (hagrees : Agrees prevDirs currGrid) (hpermitted : G.Permitted currGrid.idx dir)
    (hsrc : G.srcs (getNextGrid currGrid.idx dir) = false) :
    G.RouteOf (commit prevDirs currGrid) source
      (G.nextWavefrontGrid currGrid dir dst1 dst2 center routeWithJumpers)
      ((getNextGrid currGrid.idx dir, dir) :: steps) := by
  have hlast : getLastDir (G.nextWavefrontGrid currGrid dir dst1 dst2 center
      routeWithJumpers).backTraceBuffer = dir := getLastDir_shiftAddBuffer _ _
  have holder : getOlderDir (G.nextWavefrontGrid currGrid dir dst1 dst2 center
      routeWithJumpers).backTraceBuffer = getLastDir currGrid.backTraceBuffer :=
    getOlderDir_shiftAddBuffer _ _
  have hextends := extends_commit hagrees
  unfold RouteOf at hroute ⊢
  rw [hlast, holder]
  have hidx : (G.nextWavefrontGrid currGrid dir dst1 dst2 center routeWithJumpers).idx =
    getNextGrid currGrid.idx dir := rfl
  rw [hidx]
  generalize hlastDir : getLastDir currGrid.backTraceBuffer = lastDir at hroute ⊢
  generalize holderDir : getOlderDir currGrid.backTraceBuffer = olderDir at hroute
  generalize hcurr : currGrid.idx = idx at hroute hpermitted hsrc ⊢
  cases hroute with
  | source h => exact .first h hpermitted hsrc
  | first h hfirst hsrc' => exact .later (.source h) hfirst hsrc' hpermitted hsrc
  | later h hfirst hsrc' hsecond hsrc'' =>
      rename_i steps idx'
      refine .later (.step (h.of_extends hextends) hfirst hsrc' ?_) hsecond hsrc'' hpermitted hsrc
      have htail : tail currGrid = getNextGrid idx' olderDir := by
        unfold tail
        rw [hlastDir, hcurr, getPrevGrid_getNextGrid]
      unfold commit
      rw [holderDir, if_neg hfirst.ne, htail, Function.update_self]

/-- The new node is not on the route of the expanded element. -/
theorem next_notMem {prevDirs : PrevDirs} {source : FlexMazeIdx}
    {steps : List (FlexMazeIdx × Dir)} (hroute : G.RouteOf prevDirs source currGrid steps)
    (hpermitted : G.Permitted currGrid.idx dir)
    (hprev : prevDirs (getNextGrid currGrid.idx dir) = .unknown)
    (hturn : getLastDir currGrid.backTraceBuffer ≠ dir.reverse) :
    getNextGrid currGrid.idx dir ∉ steps.map Prod.fst := by
  unfold RouteOf at hroute
  generalize hlastDir : getLastDir currGrid.backTraceBuffer = lastDir at hroute hturn
  generalize holderDir : getOlderDir currGrid.backTraceBuffer = olderDir at hroute
  generalize hcurr : currGrid.idx = idx at hroute hpermitted hprev ⊢
  have hne := getNextGrid_ne idx hpermitted.ne
  cases hroute with
  | source h => exact List.not_mem_nil
  | first h hfirst hsrc =>
      rw [List.map_cons, List.map_nil, List.mem_singleton]
      exact hne
  | later h hfirst hsrc hsecond hsrc' =>
      rename_i steps idx'
      rw [List.map_cons, List.map_cons, List.mem_cons, List.mem_cons, not_or, not_or]
      refine ⟨hne, ?_, ?_⟩
      · -- to go back would be to turn around
        intro hback
        apply hturn
        have hreverse := getNextGrid_reverse_getNextGrid (getNextGrid idx' olderDir) lastDir
        have hdir := getNextGrid_inj (hback.trans hreverse.symm)
        rw [hdir, Dir.reverse_reverse]
      · intro hmem
        obtain ⟨step, hstep, heq⟩ := List.mem_map.mp hmem
        exact h.ne_unknown step hstep (heq ▸ hprev)

/-! ### All directions -/

/-- The commit of the tail changes no answer of `isExpandable`. -/
theorem isExpandable_commit {prevDirs : PrevDirs} :
    G.isExpandable (commit prevDirs currGrid) currGrid dir =
      G.isExpandable prevDirs currGrid dir := by
  have hsame : getLastDir currGrid.backTraceBuffer ≠ dir.reverse →
      commit prevDirs currGrid (getNextGrid currGrid.idx dir) =
        prevDirs (getNextGrid currGrid.idx dir) := by
    intro hturn
    unfold commit
    split
    · rfl
    · apply Function.update_of_ne
      intro heq
      apply hturn
      unfold tail at heq
      rw [← getNextGrid_reverse] at heq
      rw [getNextGrid_inj heq, Dir.reverse_reverse]
  rw [Bool.eq_iff_iff, isExpandable_iff, isExpandable_iff]
  constructor
  · rintro ⟨hpermitted, hsrc, hprev, hturn⟩
    exact ⟨hpermitted, hsrc, (hsame hturn).symm.trans hprev, hturn⟩
  · rintro ⟨hpermitted, hsrc, hprev, hturn⟩
    exact ⟨hpermitted, hsrc, (hsame hturn).trans hprev, hturn⟩

theorem commit_commit (prevDirs : PrevDirs) (grid : FlexWavefrontGrid) :
    commit (commit prevDirs grid) grid = commit prevDirs grid := by
  unfold commit
  split
  · rfl
  · exact Function.update_idem _ _ _

theorem agrees_commit (prevDirs : PrevDirs) (grid : FlexWavefrontGrid) :
    Agrees (commit prevDirs grid) grid := by
  intro holder
  right
  unfold commit
  rw [if_neg holder, Function.update_self]

/-- The elements that an expansion pushes. -/
def nextGrids (G : FlexGridGraph) (prevDirs : PrevDirs) (currGrid : FlexWavefrontGrid)
    (dst1 dst2 : FlexMazeIdx) (center : Int × Int) (routeWithJumpers : Bool) (dirs : List Dir) :
    List FlexWavefrontGrid :=
  (dirs.filter (G.isExpandable prevDirs currGrid)).map fun dir =>
    G.nextWavefrontGrid currGrid dir dst1 dst2 center routeWithJumpers

theorem mem_nextGrids {prevDirs : PrevDirs} {grid : FlexWavefrontGrid} :
    grid ∈ G.nextGrids prevDirs currGrid dst1 dst2 center routeWithJumpers Dir.all ↔
      ∃ dir, G.isExpandable prevDirs currGrid dir = true ∧
        G.nextWavefrontGrid currGrid dir dst1 dst2 center routeWithJumpers = grid := by
  unfold nextGrids
  rw [List.mem_map]
  constructor
  · rintro ⟨dir, hdir, rfl⟩
    exact ⟨dir, (List.mem_filter.mp hdir).2, rfl⟩
  · rintro ⟨dir, hdir, rfl⟩
    refine ⟨dir, List.mem_filter.mpr ⟨?_, hdir⟩, rfl⟩
    have hne := (isExpandable_iff.mp hdir).1.ne
    cases dir <;> simp [Dir.all] at hne ⊢

/-- If the table does not agree, nothing is pushed. -/
theorem expandWavefront_of_not_agrees (dst1 dst2 : FlexMazeIdx) (center : Int × Int)
    (routeWithJumpers : Bool) (h : ¬Agrees s.prevDirs currGrid) :
    G.expandWavefront s currGrid dst1 dst2 center routeWithJumpers = s := by
  unfold expandWavefront
  induction Dir.all with
  | nil => rfl
  | cons dir dirs ih =>
      rw [List.foldl_cons]
      split
      · rcases expand_eq s currGrid dir dst1 dst2 center routeWithJumpers with
          ⟨-, heq⟩ | ⟨hagrees, -⟩
        · rw [heq, ih]
        · exact absurd hagrees h
      · exact ih

/-- If it agrees, all directions that are expandable are pushed, and the tail committed with the
first of them. -/
theorem expandWavefront_of_agrees (dst1 dst2 : FlexMazeIdx) (center : Int × Int)
    (routeWithJumpers : Bool) (h : Agrees s.prevDirs currGrid) :
    let pushed := G.nextGrids s.prevDirs currGrid dst1 dst2 center routeWithJumpers Dir.all
    G.expandWavefront s currGrid dst1 dst2 center routeWithJumpers =
      { prevDirs := if pushed = [] then s.prevDirs else commit s.prevDirs currGrid
        wavefront := pushed.reverse ++ s.wavefront } := by
  have hgeneral : ∀ (dirs : List Dir) (t : Search),
      t.prevDirs = s.prevDirs ∨ t.prevDirs = commit s.prevDirs currGrid →
      let pushed := G.nextGrids s.prevDirs currGrid dst1 dst2 center routeWithJumpers dirs
      dirs.foldl (fun s dir =>
          if G.isExpandable s.prevDirs currGrid dir then
            G.expand s currGrid dir dst1 dst2 center routeWithJumpers
          else s) t =
        { prevDirs := if pushed = [] then t.prevDirs else commit s.prevDirs currGrid
          wavefront := pushed.reverse ++ t.wavefront } := by
    intro dirs
    induction dirs with
    | nil => exact fun t _ => rfl
    | cons dir dirs ih =>
        intro t ht
        have hexpandable : G.isExpandable t.prevDirs currGrid dir =
            G.isExpandable s.prevDirs currGrid dir := by
          rcases ht with ht | ht
          · rw [ht]
          · rw [ht, isExpandable_commit]
        have hagrees : Agrees t.prevDirs currGrid := by
          rcases ht with ht | ht
          · rw [ht]
            exact h
          · rw [ht]
            exact agrees_commit _ _
        have hcommit : commit t.prevDirs currGrid = commit s.prevDirs currGrid := by
          rcases ht with ht | ht
          · rw [ht]
          · rw [ht, commit_commit]
        dsimp only at ih ⊢
        rw [List.foldl_cons, hexpandable]
        unfold nextGrids at ih ⊢
        split
        · rename_i hdir
          rcases expand_eq t currGrid dir dst1 dst2 center routeWithJumpers with
            ⟨hnot, -⟩ | ⟨-, heq⟩
          · exact absurd hagrees hnot
          · rw [heq, hcommit, ih _ (Or.inr rfl), List.filter_cons_of_pos hdir, List.map_cons,
              if_neg (List.cons_ne_nil _ _), ite_self, List.reverse_cons, List.append_assoc]
            rfl
        · rename_i hdir
          rw [ih t ht, List.filter_cons_of_neg hdir]
  exact hgeneral Dir.all s (Or.inl rfl)

end

end FlexGridGraph

end OpenRoad.Drt
