import OpenRoad.DrtMazeExpand
import Mathlib.Algebra.Order.BigOperators.Group.List
import Mathlib.Algebra.BigOperators.Ring.List
import Mathlib.Algebra.Group.Action.Defs
import Mathlib.Algebra.Order.Ring.Nat

/-!
The run of the maze search. Each element of the wavefront has a route; the routes bound how long the
search can go on. A node from which all elements were pushed passes on to each neighbor, or the table
says that another element did.
-/

namespace OpenRoad.Drt

namespace FlexGridGraph

variable {G : FlexGridGraph}

/-! ### Tracing back -/

/-- Following a walk back. -/
def Trace.follow (t : Trace) (steps : List (FlexMazeIdx × Dir)) : Trace :=
  steps.foldl (fun t step => t.step step.2) t

theorem Trace.follow_path {source idx : FlexMazeIdx} {steps : List (FlexMazeIdx × Dir)}
    (h : G.Walk source steps idx) (t : Trace) (ht : t.idx = idx) :
    (t.follow steps).idx = source ∧
      (t.follow steps).path = t.path ++ turnPoints t.prevDir steps ∧
      (t.follow steps).root = t.root ++ steps.map Prod.fst ∧
      (t.follow steps).warned = t.warned := by
  induction h generalizing t with
  | nil => exact ⟨ht, (List.append_nil _).symm, (List.append_nil _).symm, rfl⟩
  | cons hwalk hpermitted ih =>
      rename_i steps idx dir
      have hstep : (t.step dir).idx = idx := by
        unfold Trace.step
        dsimp only
        rw [ht, getPrevGrid_getNextGrid]
      obtain ⟨hidx, hpath, hroot, hwarned⟩ := ih (t.step dir) hstep
      refine ⟨hidx, hpath.trans ?_, hroot.trans ?_, hwarned⟩
      · unfold Trace.step
        dsimp only
        rw [ht, turnPoints]
        split
        · rw [List.append_assoc]
          rfl
        · rfl
      · unfold Trace.step
        dsimp only
        rw [ht, List.append_assoc]
        rfl

/-- The table is followed to the source. -/
theorem tracePrevDirs_committed {prevDirs : PrevDirs} {source idx : FlexMazeIdx}
    {steps : List (FlexMazeIdx × Dir)} (h : Committed G prevDirs source steps idx) (t : Trace)
    (ht : t.idx = idx) {n : Nat} (hn : steps.length < n) :
    G.tracePrevDirs prevDirs n t = some (t.follow steps) := by
  induction h generalizing t n with
  | source hsrc =>
      cases n with
      | zero => cases hn
      | succ n =>
          rw [tracePrevDirs, ht, if_pos hsrc]
          rfl
  | step hroute hpermitted hsrc hdir ih =>
      rename_i steps idx dir
      cases n with
      | zero => cases hn
      | succ n =>
          rw [tracePrevDirs, ht, hsrc, if_neg Bool.false_ne_true, hdir]
          dsimp only
          rw [if_neg hpermitted.ne]
          apply ih
          · unfold Trace.step
            dsimp only
            rw [ht, getPrevGrid_getNextGrid]
          · exact Nat.lt_of_succ_lt_succ hn

/-- A node that is its own source has no other table route. -/
theorem tracePrevDirs_source {prevDirs : PrevDirs} {t : Trace} (h : G.srcs t.idx = true) {n : Nat}
    (hn : 0 < n) : G.tracePrevDirs prevDirs n t = some t := by
  cases n with
  | zero => cases hn
  | succ n => rw [tracePrevDirs, if_pos h]

/-- The buffer and then the table are followed to the source. -/
theorem trace_route {prevDirs : PrevDirs} {source : FlexMazeIdx} {grid : FlexWavefrontGrid}
    {steps : List (FlexMazeIdx × Dir)} (h : G.RouteOf prevDirs source grid steps) (t : Trace)
    (ht : t.idx = grid.idx) {n : Nat} (hn : steps.length < n) :
    G.tracePrevDirs prevDirs n (G.traceBuffer 2 grid.backTraceBuffer t) =
      some (t.follow steps) := by
  have hpos : 0 < n := Nat.lt_of_le_of_lt (Nat.zero_le _) hn
  unfold RouteOf at h
  generalize hlast : getLastDir grid.backTraceBuffer = lastDir at h
  generalize holder : getOlderDir grid.backTraceBuffer = olderDir at h
  unfold getOlderDir at holder
  generalize hcurr : grid.idx = idx at h ht
  cases h with
  | source hsrc =>
      rw [traceBuffer, if_pos (ht ▸ hsrc)]
      exact tracePrevDirs_source (ht ▸ hsrc) hpos
  | first hsource hpermitted hsrc =>
      have hback : (t.step lastDir).idx = source := by
        unfold Trace.step
        dsimp only
        rw [ht, getPrevGrid_getNextGrid]
      rw [traceBuffer, ht, hsrc, if_neg Bool.false_ne_true, hlast]
      dsimp only
      rw [if_neg hpermitted.ne, traceBuffer, if_pos (hback ▸ hsource)]
      exact tracePrevDirs_source (hback ▸ hsource) hpos
  | later hroute hfirst hsrc hsecond hsrc' =>
      rename_i steps idx'
      have hback : (t.step lastDir).idx = getNextGrid idx' olderDir := by
        unfold Trace.step
        dsimp only
        rw [ht, getPrevGrid_getNextGrid]
      have hback' : ((t.step lastDir).step olderDir).idx = idx' := by
        unfold Trace.step at hback ⊢
        dsimp only at hback ⊢
        rw [hback, getPrevGrid_getNextGrid]
      rw [traceBuffer, ht, hsrc', if_neg Bool.false_ne_true, hlast]
      dsimp only
      rw [if_neg hsecond.ne, traceBuffer, hback, hsrc, if_neg Bool.false_ne_true, holder]
      dsimp only
      rw [if_neg hfirst.ne, traceBuffer]
      refine tracePrevDirs_committed hroute _ hback' ?_
      simp only [List.length_cons] at hn
      omega

theorem turnPoints_ne_nil {dir : Dir} (h : dir ≠ .unknown) (idx : FlexMazeIdx)
    (steps : List (FlexMazeIdx × Dir)) : turnPoints .unknown ((idx, dir) :: steps) ≠ [] := by
  unfold turnPoints
  rw [if_pos h]
  exact List.cons_ne_nil _ _

/-- What is traced back from a node that is no source. -/
theorem traceBackPath_route {prevDirs : PrevDirs} {source : FlexMazeIdx}
    {grid : FlexWavefrontGrid} {steps : List (FlexMazeIdx × Dir)}
    (h : G.RouteOf prevDirs source grid steps) (hsrc : G.srcs grid.idx = false)
    (connComps : List FlexMazeIdx) :
    ∃ t, (∀ n, steps.length < n → G.traceBackPath prevDirs n grid [] connComps = some t) ∧
      t.path = turnPoints .unknown steps ++ [source] ∧
      t.root = connComps ++ steps.map Prod.fst ∧ t.warned = false := by
  obtain ⟨hidx, hpath, hroot, hwarned⟩ :=
    Trace.follow_path h.walk ⟨grid.idx, .unknown, [], connComps, false⟩ rfl
  set t : Trace := Trace.follow ⟨grid.idx, .unknown, [], connComps, false⟩ steps
  refine ⟨{ t with path := if t.path = [] then [] else t.path ++ [t.idx] }, ?_, ?_, hroot,
    hwarned⟩
  · intro n hn
    unfold traceBackPath
    rw [trace_route h ⟨grid.idx, .unknown, [], connComps, false⟩ rfl hn]
    rfl
  · dsimp only
    rw [hpath, hidx, List.nil_append, if_neg]
    have hwalk := Route.walk h
    generalize hcurr : grid.idx = idx at hwalk hsrc
    cases hwalk with
    | nil =>
        rw [Route.srcs_source h] at hsrc
        cases hsrc
    | cons _ hpermitted => exact turnPoints_ne_nil hpermitted.ne _ _

/-! ### The elements and their routes -/

/-- An element with its route. -/
abbrev Element := FlexWavefrontGrid × List (FlexMazeIdx × Dir)

/-- Each element of the wavefront has a route without repetition. -/
structure Routed (G : FlexGridGraph) (s : Search) (elements : List Element) : Prop where
  perm : s.wavefront.Perm (elements.map Prod.fst)
  route : ∀ element ∈ elements, ∃ source,
    G.RouteOf s.prevDirs source element.1 element.2 ∧ (element.2.map Prod.fst).Nodup

/-- What an element can still lead to: one route in each of six directions, up to the number of
nodes. -/
def weight (G : FlexGridGraph) (steps : List (FlexMazeIdx × Dir)) : Nat :=
  7 ^ (G.numNodes - steps.length)

def totalWeight (G : FlexGridGraph) (elements : List Element) : Nat :=
  (elements.map fun element => G.weight element.2).sum

theorem weight_pos (G : FlexGridGraph) (steps : List (FlexMazeIdx × Dir)) : 0 < G.weight steps :=
  Nat.pow_pos (by decide)

theorem route_length_le {prevDirs : PrevDirs} {source idx : FlexMazeIdx} {last older : Dir}
    {steps : List (FlexMazeIdx × Dir)} (h : Route G prevDirs source last older steps idx)
    (hnodup : (steps.map Prod.fst).Nodup) : steps.length ≤ G.numNodes := by
  rw [← List.length_map Prod.fst]
  apply length_le_numNodes hnodup
  intro idx hidx
  obtain ⟨step, hstep, rfl⟩ := List.mem_map.mp hidx
  exact h.walk.isValid step hstep

/-- A pop takes one element with its route. -/
theorem Routed.pop {s : Search} {elements : List Element} (hs : Routed G s elements)
    {Q : TopQueue FlexWavefrontGrid.less} {currGrid : FlexWavefrontGrid}
    {rest : List FlexWavefrontGrid} (hpop : Q.pop s.wavefront = some (currGrid, rest)) :
    ∃ source steps elements', Routed G { s with wavefront := rest } elements' ∧
      G.RouteOf s.prevDirs source currGrid steps ∧ (steps.map Prod.fst).Nodup ∧
      G.totalWeight elements = G.weight steps + G.totalWeight elements' := by
  have hmem : currGrid ∈ elements.map Prod.fst := hs.perm.mem_iff.mp (Q.mem_of_pop hpop)
  obtain ⟨⟨grid, steps⟩, helement, rfl⟩ := List.mem_map.mp hmem
  obtain ⟨source, hroute, hnodup⟩ := hs.route _ helement
  have hperm := List.perm_cons_erase helement
  refine ⟨source, steps, elements.erase (grid, steps), ⟨?_, ?_⟩, hroute, hnodup, ?_⟩
  · have hwave := (Q.pop_perm hpop).symm.trans (hs.perm.trans (hperm.map Prod.fst))
    exact List.Perm.cons_inv hwave
  · intro element h
    exact hs.route element (List.mem_of_mem_erase h)
  · unfold totalWeight
    rw [(hperm.map fun element => G.weight element.2).sum_eq]
    rfl

/-- What is pushed weighs less than what was popped. -/
theorem Routed.expandWavefront {s : Search} {elements : List Element} (hs : Routed G s elements)
    {source : FlexMazeIdx} {currGrid : FlexWavefrontGrid} {steps : List (FlexMazeIdx × Dir)}
    (hroute : G.RouteOf s.prevDirs source currGrid steps) (hnodup : (steps.map Prod.fst).Nodup)
    (dst1 dst2 : FlexMazeIdx) (center : Int × Int) (routeWithJumpers : Bool) :
    ∃ elements', Routed G (G.expandWavefront s currGrid dst1 dst2 center routeWithJumpers)
        elements' ∧ G.totalWeight elements' < G.weight steps + G.totalWeight elements := by
  by_cases hagrees : Agrees s.prevDirs currGrid
  swap
  · rw [expandWavefront_of_not_agrees _ _ _ _ hagrees]
    exact ⟨elements, hs, Nat.lt_add_of_pos_left (G.weight_pos steps)⟩
  rw [expandWavefront_of_agrees _ _ _ _ hagrees]
  set pushed := G.nextGrids s.prevDirs currGrid dst1 dst2 center routeWithJumpers Dir.all
    with hpushed
  let element (grid : FlexWavefrontGrid) : Element :=
    (grid, (grid.idx, getLastDir grid.backTraceBuffer) :: steps)
  have hextends : Extends s.prevDirs
      (if pushed = [] then s.prevDirs else commit s.prevDirs currGrid) := by
    split
    · exact fun idx _ => rfl
    · exact extends_commit hagrees
  have hnew : ∀ grid ∈ pushed,
      G.RouteOf (if pushed = [] then s.prevDirs else commit s.prevDirs currGrid) source grid
        (element grid).2 ∧ ((element grid).2.map Prod.fst).Nodup := by
    intro grid hgrid
    rw [if_neg (List.ne_nil_of_mem hgrid)]
    obtain ⟨dir, hdir, rfl⟩ := mem_nextGrids.mp hgrid
    obtain ⟨hpermitted, hsrc, hprev, hturn⟩ := isExpandable_iff.mp hdir
    have hlast : getLastDir (G.nextWavefrontGrid currGrid dir dst1 dst2 center
        routeWithJumpers).backTraceBuffer = dir := getLastDir_shiftAddBuffer _ _
    dsimp only [element]
    rw [hlast]
    refine ⟨route_next hroute hagrees hpermitted hsrc, ?_⟩
    exact List.nodup_cons.mpr ⟨next_notMem hroute hpermitted hprev hturn, hnodup⟩
  refine ⟨pushed.reverse.map element ++ elements, ⟨?_, ?_⟩, ?_⟩
  · have hpushed' : (pushed.reverse.map element).map Prod.fst = pushed.reverse := by
      rw [List.map_map]
      exact List.map_id' _
    rw [List.map_append, hpushed']
    exact hs.perm.append_left _
  · intro x hx
    rcases List.mem_append.mp hx with hx | hx
    · obtain ⟨grid, hgrid, rfl⟩ := List.mem_map.mp hx
      exact ⟨source, hnew grid (List.mem_reverse.mp hgrid)⟩
    · obtain ⟨source', hroute', hnodup'⟩ := hs.route x hx
      exact ⟨source', Route.of_extends hroute' hextends, hnodup'⟩
  · -- at most six elements, each of a seventh of the weight
    have hlength : pushed.length ≤ 6 := by
      rw [hpushed]
      unfold nextGrids
      rw [List.length_map]
      exact List.length_filter_le _ Dir.all
    have hsum : 7 * ((pushed.reverse.map element).map fun x => G.weight x.2).sum ≤
        6 * G.weight steps := by
      have hbound : ∀ n ∈ (pushed.reverse.map element).map fun x => 7 * G.weight x.2,
          n ≤ G.weight steps := by
        intro n hn
        rw [List.map_map] at hn
        obtain ⟨grid, hgrid, rfl⟩ := List.mem_map.mp hn
        obtain ⟨hroute', hnodup'⟩ := hnew grid (List.mem_reverse.mp hgrid)
        have hle := route_length_le hroute' hnodup'
        have hsteps : (element grid).2.length = steps.length + 1 := rfl
        rw [hsteps] at hle
        have hexp : G.numNodes - steps.length = G.numNodes - (steps.length + 1) + 1 := by omega
        dsimp only [Function.comp]
        unfold weight
        rw [hsteps, hexp, Nat.pow_succ]
        exact le_of_eq (Nat.mul_comm _ _)
      have hall := List.sum_le_card_nsmul _ _ hbound
      rw [List.sum_map_mul_left] at hall
      rw [List.length_map, List.length_map, List.length_reverse, smul_eq_mul] at hall
      exact hall.trans (Nat.mul_le_mul_right _ hlength)
    have hpos := G.weight_pos steps
    unfold totalWeight
    rw [List.map_append, List.sum_append]
    omega

/-! ### What has been passed on -/

/-- From the pairs in `done`, a node and a direction into it, elements were pushed: to each neighbor,
unless the table has another direction for the node. -/
structure Passed (G : FlexGridGraph) (s : Search) (done : FlexMazeIdx → Dir → Prop) : Prop where
  tails : ∀ grid ∈ s.wavefront, getLastDir grid.backTraceBuffer ≠ .unknown →
    done (tail grid) (getOlderDir grid.backTraceBuffer)
  sources : ∀ idx, G.srcs idx = true → done idx .unknown ∨
    ∃ grid ∈ s.wavefront, grid.idx = idx ∧ getLastDir grid.backTraceBuffer = .unknown
  table : ∀ idx, s.prevDirs idx ≠ .unknown → G.srcs idx = false ∧ done idx (s.prevDirs idx)
  neighbors : ∀ idx dirIn, done idx dirIn →
    (s.prevDirs idx = .unknown ∨ s.prevDirs idx = dirIn) → ∀ dir, G.Permitted idx dir →
    G.srcs (getNextGrid idx dir) = true ∨ (∃ dirIn', done (getNextGrid idx dir) dirIn') ∨
      ∃ grid ∈ s.wavefront, grid.idx = getNextGrid idx dir ∧
        getLastDir grid.backTraceBuffer = dir ∧ getOlderDir grid.backTraceBuffer = dirIn
  dsts : ∀ idx dirIn, done idx dirIn → G.dsts idx = false

/-- With an empty wavefront, all that is reached has been passed on. -/
theorem Passed.walk {s : Search} {done : FlexMazeIdx → Dir → Prop} (h : Passed G s done)
    (hempty : s.wavefront = []) {source idx : FlexMazeIdx} (hsource : G.srcs source = true)
    {steps : List (FlexMazeIdx × Dir)} (hwalk : G.Walk source steps idx) :
    ∃ dirIn, done idx dirIn := by
  have hsrc : ∀ idx, G.srcs idx = true → ∃ dirIn, done idx dirIn := by
    intro idx hidx
    rcases h.sources idx hidx with hdone | ⟨grid, hgrid, -⟩
    · exact ⟨_, hdone⟩
    · rw [hempty] at hgrid
      cases hgrid
  induction hwalk with
  | nil => exact hsrc source hsource
  | cons hwalk' hpermitted ih =>
      rename_i idx dir
      obtain ⟨dirIn, hdone⟩ := ih
      -- a direction into the node that the table does not contradict
      have hchoice : ∃ dirIn, done idx dirIn ∧
          (s.prevDirs idx = .unknown ∨ s.prevDirs idx = dirIn) := by
        by_cases htable : s.prevDirs idx = .unknown
        · exact ⟨dirIn, hdone, Or.inl htable⟩
        · exact ⟨_, (h.table idx htable).2, Or.inr rfl⟩
      obtain ⟨dirIn', hdone', hagrees⟩ := hchoice
      rcases h.neighbors idx dirIn' hdone' hagrees dir hpermitted with hn | hn | ⟨grid, hgrid, -⟩
      · exact hsrc _ hn
      · exact hn
      · rw [hempty] at hgrid
        cases hgrid

section

variable {s : Search} {done : FlexMazeIdx → Dir → Prop} {Q : TopQueue FlexWavefrontGrid.less}
  {currGrid : FlexWavefrontGrid} {rest : List FlexWavefrontGrid}

/-- An element whose node is in the table is not needed. -/
theorem Passed.skip (h : Passed G s done) (hpop : Q.pop s.wavefront = some (currGrid, rest))
    (htable : s.prevDirs currGrid.idx ≠ .unknown) :
    Passed G { s with wavefront := rest } done := by
  obtain ⟨hsrc, hdone⟩ := h.table _ htable
  refine ⟨fun grid hgrid => ?_, fun idx hidx => ?_, h.table, fun idx dirIn hin hagrees dir hp => ?_,
    h.dsts⟩
  · exact h.tails grid ((Q.mem_pop_iff hpop).mpr (Or.inr hgrid))
  · rcases h.sources idx hidx with hin | ⟨grid, hgrid, rfl, hlast⟩
    · exact Or.inl hin
    · rcases (Q.mem_pop_iff hpop).mp hgrid with rfl | hgrid
      · rw [hsrc] at hidx
        cases hidx
      · exact Or.inr ⟨grid, hgrid, rfl, hlast⟩
  · rcases h.neighbors idx dirIn hin hagrees dir hp with hn | hn | ⟨grid, hgrid, heq, hrest⟩
    · exact Or.inl hn
    · exact Or.inr (Or.inl hn)
    · rcases (Q.mem_pop_iff hpop).mp hgrid with rfl | hgrid
      · rw [← heq]
        exact Or.inr (Or.inl ⟨_, hdone⟩)
      · exact Or.inr (Or.inr ⟨grid, hgrid, heq, hrest⟩)

/-- An element that the table contradicts is not needed. -/
theorem Passed.drop (h : Passed G s done) (hpop : Q.pop s.wavefront = some (currGrid, rest))
    {source : FlexMazeIdx} {steps : List (FlexMazeIdx × Dir)}
    (hroute : G.RouteOf s.prevDirs source currGrid steps)
    (hagrees : ¬Agrees s.prevDirs currGrid) : Passed G { s with wavefront := rest } done := by
  unfold Agrees at hagrees
  push Not at hagrees
  obtain ⟨holder, hnone, hother⟩ := hagrees
  have hlast : getLastDir currGrid.backTraceBuffer ≠ .unknown := by
    intro hlast
    unfold RouteOf at hroute
    rw [hlast] at hroute
    generalize getOlderDir currGrid.backTraceBuffer = olderDir at hroute holder
    generalize currGrid.idx = idx at hroute
    cases hroute with
    | source => exact holder rfl
    | first _ hpermitted => exact hpermitted.ne rfl
    | later _ _ _ hpermitted => exact hpermitted.ne rfl
  refine ⟨fun grid hgrid => ?_, fun idx hidx => ?_, h.table, fun idx dirIn hin hag dir hp => ?_,
    h.dsts⟩
  · exact h.tails grid ((Q.mem_pop_iff hpop).mpr (Or.inr hgrid))
  · rcases h.sources idx hidx with hin | ⟨grid, hgrid, rfl, hunknown⟩
    · exact Or.inl hin
    · rcases (Q.mem_pop_iff hpop).mp hgrid with rfl | hgrid
      · exact absurd hunknown hlast
      · exact Or.inr ⟨grid, hgrid, rfl, hunknown⟩
  · rcases h.neighbors idx dirIn hin hag dir hp with hn | hn | ⟨grid, hgrid, heq, hdir, hdirIn⟩
    · exact Or.inl hn
    · exact Or.inr (Or.inl hn)
    · rcases (Q.mem_pop_iff hpop).mp hgrid with rfl | hgrid
      · -- its tail is the node, for which the table has another direction
        have htail : tail grid = idx := by
          unfold tail
          rw [heq, hdir, getPrevGrid_getNextGrid]
        rw [htail] at hnone hother
        rw [hdirIn] at hother
        rcases hag with hag | hag
        · exact absurd hag hnone
        · exact absurd hag hother
      · exact Or.inr (Or.inr ⟨grid, hgrid, heq, hdir, hdirIn⟩)

/-- An element that is expanded passes on to each neighbor. -/
theorem Passed.expand (h : Passed G s done) (hpop : Q.pop s.wavefront = some (currGrid, rest))
    {source : FlexMazeIdx} {steps : List (FlexMazeIdx × Dir)}
    (hroute : G.RouteOf s.prevDirs source currGrid steps)
    (hagrees : Agrees s.prevDirs currGrid) (hdst : G.dsts currGrid.idx = false)
    (dst1 dst2 : FlexMazeIdx) (center : Int × Int) (routeWithJumpers : Bool) :
    Passed G (G.expandWavefront { s with wavefront := rest } currGrid dst1 dst2 center
      routeWithJumpers) fun idx dirIn =>
        done idx dirIn ∨ idx = currGrid.idx ∧ dirIn = getLastDir currGrid.backTraceBuffer := by
  rw [expandWavefront_of_agrees (s := { s with wavefront := rest }) dst1 dst2 center
    routeWithJumpers hagrees]
  set pushed := G.nextGrids s.prevDirs currGrid dst1 dst2 center routeWithJumpers Dir.all
  set prevDirs' := if pushed = [] then s.prevDirs else commit s.prevDirs currGrid with hprevDirs'
  have hcurr : currGrid ∈ s.wavefront := Q.mem_of_pop hpop
  have hextends : Extends s.prevDirs prevDirs' := by
    rw [hprevDirs']
    split
    · exact fun idx _ => rfl
    · exact extends_commit hagrees
  -- the tail of the element has been passed on
  have htail : getOlderDir currGrid.backTraceBuffer ≠ .unknown → G.srcs (tail currGrid) = false ∧
      done (tail currGrid) (getOlderDir currGrid.backTraceBuffer) := by
    intro holder
    have hlaterRoute : G.srcs (tail currGrid) = false ∧
        getLastDir currGrid.backTraceBuffer ≠ .unknown := by
      unfold RouteOf at hroute
      unfold tail
      generalize getLastDir currGrid.backTraceBuffer = lastDir at hroute
      generalize getOlderDir currGrid.backTraceBuffer = olderDir at hroute holder
      generalize currGrid.idx = idx at hroute
      cases hroute with
      | source => exact absurd rfl holder
      | first => exact absurd rfl holder
      | later _ _ hsrc hpermitted =>
          rw [getPrevGrid_getNextGrid]
          exact ⟨hsrc, hpermitted.ne⟩
    exact ⟨hlaterRoute.1, h.tails currGrid hcurr hlaterRoute.2⟩
  have hnew : ∀ idx, prevDirs' idx ≠ .unknown → s.prevDirs idx = .unknown →
      getOlderDir currGrid.backTraceBuffer ≠ .unknown ∧ idx = tail currGrid ∧
        prevDirs' idx = getOlderDir currGrid.backTraceBuffer := by
    intro idx hidx hold
    rw [hprevDirs'] at hidx ⊢
    split at hidx
    · exact absurd hold hidx
    · rename_i hne
      rw [if_neg hne]
      unfold commit at hidx ⊢
      split at hidx
      · exact absurd hold hidx
      · rename_i holder
        rw [Function.update_apply] at hidx
        split at hidx
        · rename_i heq
          rw [if_neg holder, heq, Function.update_self]
          exact ⟨holder, rfl, rfl⟩
        · exact absurd hold hidx
  have hrest : ∀ grid ∈ rest, grid ∈ s.wavefront := fun grid hgrid =>
    (Q.mem_pop_iff hpop).mpr (Or.inr hgrid)
  constructor
  · intro grid hgrid hlast
    rcases List.mem_append.mp hgrid with hgrid | hgrid
    · obtain ⟨dir, -, rfl⟩ := mem_nextGrids.mp (List.mem_reverse.mp hgrid)
      right
      refine ⟨?_, getOlderDir_shiftAddBuffer _ _⟩
      have hdir : getLastDir (G.nextWavefrontGrid currGrid dir dst1 dst2 center
          routeWithJumpers).backTraceBuffer = dir := getLastDir_shiftAddBuffer _ _
      unfold tail
      rw [hdir]
      exact getPrevGrid_getNextGrid _ _
    · exact Or.inl (h.tails grid (hrest grid hgrid) hlast)
  · intro idx hidx
    rcases h.sources idx hidx with hin | ⟨grid, hgrid, rfl, hlast⟩
    · exact Or.inl (Or.inl hin)
    · rcases (Q.mem_pop_iff hpop).mp hgrid with rfl | hgrid
      · exact Or.inl (Or.inr ⟨rfl, hlast.symm⟩)
      · exact Or.inr ⟨grid, List.mem_append_right _ hgrid, rfl, hlast⟩
  · intro idx hidx
    by_cases hold : s.prevDirs idx = .unknown
    · obtain ⟨holder, rfl, hdir⟩ := hnew idx hidx hold
      dsimp only
      rw [hdir]
      exact ⟨(htail holder).1, Or.inl (htail holder).2⟩
    · have heq : prevDirs' idx = s.prevDirs idx := hextends idx hold
      dsimp only
      rw [heq]
      exact ⟨(h.table idx hold).1, Or.inl (h.table idx hold).2⟩
  · intro idx dirIn hin hag dir hp
    rcases hin with hin | ⟨rfl, rfl⟩
    · -- what was passed on before
      have hag' : s.prevDirs idx = .unknown ∨ s.prevDirs idx = dirIn := by
        by_cases hold : s.prevDirs idx = .unknown
        · exact Or.inl hold
        · have heq : prevDirs' idx = s.prevDirs idx := hextends idx hold
          dsimp only at hag
          rw [heq] at hag
          exact hag
      rcases h.neighbors idx dirIn hin hag' dir hp with hn | ⟨dirIn', hn⟩ | ⟨grid, hgrid, heq, hd⟩
      · exact Or.inl hn
      · exact Or.inr (Or.inl ⟨dirIn', Or.inl hn⟩)
      · rcases (Q.mem_pop_iff hpop).mp hgrid with rfl | hgrid
        · exact Or.inr (Or.inl ⟨_, Or.inr ⟨heq.symm, rfl⟩⟩)
        · exact Or.inr (Or.inr ⟨grid, List.mem_append_right _ hgrid, heq, hd⟩)
    · -- what the element passes on
      cases hsrc : G.srcs (getNextGrid currGrid.idx dir) with
      | true => exact Or.inl rfl
      | false =>
          right
          by_cases htable : s.prevDirs (getNextGrid currGrid.idx dir) = .unknown
          swap
          · exact Or.inl ⟨_, Or.inl (h.table _ htable).2⟩
          by_cases hturn : getLastDir currGrid.backTraceBuffer = dir.reverse
          · -- the neighbor is the node before
            left
            have hlast : getLastDir currGrid.backTraceBuffer ≠ .unknown := by
              rw [hturn]
              intro hunknown
              apply hp.ne
              rw [← Dir.reverse_reverse dir, hunknown]
              rfl
            have hback : tail currGrid = getNextGrid currGrid.idx dir := by
              unfold tail
              rw [hturn, ← getNextGrid_reverse, Dir.reverse_reverse]
            rw [← hback]
            exact ⟨_, Or.inl (h.tails currGrid hcurr hlast)⟩
          · right
            have hexpandable := isExpandable_iff.mpr ⟨hp, hsrc, htable, hturn⟩
            refine ⟨G.nextWavefrontGrid currGrid dir dst1 dst2 center routeWithJumpers,
              List.mem_append_left _ (List.mem_reverse.mpr (mem_nextGrids.mpr
                ⟨dir, hexpandable, rfl⟩)), rfl, getLastDir_shiftAddBuffer _ _,
              getOlderDir_shiftAddBuffer _ _⟩
  · rintro idx dirIn (hin | ⟨rfl, -⟩)
    · exact h.dsts idx dirIn hin
    · exact hdst

end

/-! ### The whole search -/

/-- A destination is reachable from a source. -/
def Reachable (G : FlexGridGraph) (connComps : List FlexMazeIdx) : Prop :=
  ∃ source ∈ connComps, ∃ steps idx, G.Walk source steps idx ∧ G.dsts idx = true

/-- What a search answers: no walk, or one whose turn points are the path and whose nodes but the
source are added to the component. -/
structure Answers (G : FlexGridGraph) (q : Query) (r : Result) : Prop where
  found_iff : r.found = true ↔ G.Reachable q.connComps
  walk : r.found = true → ∃ source ∈ q.connComps, ∃ steps idx, G.Walk source steps idx ∧
    G.dsts idx = true ∧ (steps.map Prod.fst).Nodup ∧
    r.path = turnPoints .unknown steps ++ [source] ∧
    r.connComps = q.connComps ++ steps.map Prod.fst
  unchanged : r.found = false → r.path = [] ∧ r.connComps = q.connComps
  not_warned : r.warned = false

theorem not_reachable {q : Query} (hsrcs : ∀ idx, G.srcs idx = true ↔ idx ∈ q.connComps)
    {s : Search} {done : FlexMazeIdx → Dir → Prop} (h : Passed G s done)
    (hempty : s.wavefront = []) : ¬G.Reachable q.connComps := by
  rintro ⟨source, hsource, steps, idx, hwalk, hdst⟩
  obtain ⟨dirIn, hdone⟩ := h.walk hempty ((hsrcs source).mpr hsource) hwalk
  rw [h.dsts idx dirIn hdone] at hdst
  cases hdst

/-- The run of the main loop. -/
theorem searchLoop_answers (Q : TopQueue FlexWavefrontGrid.less) {q : Query}
    (hsrcs : ∀ idx, G.srcs idx = true ↔ idx ∈ q.connComps)
    (hno : ∀ idx ∈ q.connComps, G.dsts idx = false) (m : Nat) {s : Search}
    {elements : List Element} {done : FlexMazeIdx → Dir → Prop} (hs : Routed G s elements)
    (hm : G.totalWeight elements ≤ m) (hdone : Passed G s done) :
    ∃ r, Answers G q r ∧ ∀ fuel, m + G.numNodes + 2 ≤ fuel → G.searchLoop Q q fuel s = some r := by
  induction m using Nat.strong_induction_on generalizing s elements done with
  | _ m ih =>
      cases hpop : Q.pop s.wavefront with
      | none =>
          have hnot := not_reachable hsrcs hdone (Q.pop_none hpop)
          refine ⟨⟨false, q.connComps, [], q.ccMazeIdx, s.prevDirs, false⟩, ?_,
            fun fuel hfuel => ?_⟩
          · refine ⟨⟨fun h => ?_, fun h => absurd h hnot⟩, fun h => ?_, fun _ => ⟨rfl, rfl⟩, rfl⟩
            · cases h
            · cases h
          obtain ⟨n, rfl⟩ : ∃ n, fuel = n + 1 := ⟨fuel - 1, by omega⟩
          rw [searchLoop, hpop]
      | some popped =>
          obtain ⟨currGrid, rest⟩ := popped
          obtain ⟨source, steps, elements', hrest, hroute, hnodup, htotal⟩ := hs.pop hpop
          have hpos := G.weight_pos steps
          -- what the loop does with the rest, once it weighs less
          have hgo : ∀ (t : Search) (elements'' : List Element) (done' : FlexMazeIdx → Dir → Prop),
              Routed G t elements'' → G.totalWeight elements'' < m → Passed G t done' →
              (∀ n, G.searchLoop Q q (n + 1) s = G.searchLoop Q q n t) →
              ∃ r, Answers G q r ∧
                ∀ fuel, m + G.numNodes + 2 ≤ fuel → G.searchLoop Q q fuel s = some r := by
            intro t elements'' done' ht hlt hdone' hstep
            obtain ⟨r, hr, hloop⟩ := ih (m - 1) (by omega) ht (by omega) hdone'
            refine ⟨r, hr, fun fuel hfuel => ?_⟩
            obtain ⟨n, rfl⟩ : ∃ n, fuel = n + 1 := ⟨fuel - 1, by omega⟩
            rw [hstep]
            exact hloop n (by omega)
          by_cases htable : s.prevDirs currGrid.idx = .unknown
          swap
          · refine hgo _ elements' done hrest (by omega) (hdone.skip hpop htable) fun n => ?_
            rw [searchLoop, hpop]
            dsimp only
            rw [if_pos htable]
          cases hdst : G.dsts currGrid.idx with
          | true =>
              have hsrc : G.srcs currGrid.idx = false := by
                rw [← Bool.not_eq_true]
                intro hsrc
                rw [hno _ ((hsrcs _).mp hsrc)] at hdst
                cases hdst
              have hsource : source ∈ q.connComps := (hsrcs source).mp (Route.srcs_source hroute)
              have hlength := route_length_le hroute hnodup
              obtain ⟨t, htrace, hpath, hroot, hwarned⟩ :=
                traceBackPath_route hroute hsrc q.connComps
              refine ⟨⟨true, t.root, t.path, growBox q.ccMazeIdx t.path, s.prevDirs, t.warned⟩,
                ⟨?_, ?_, fun h => ?_, hwarned⟩, fun fuel hfuel => ?_⟩
              · exact ⟨fun _ => ⟨source, hsource, steps, _, Route.walk hroute, hdst⟩, fun _ => rfl⟩
              · exact fun _ => ⟨source, hsource, steps, _, Route.walk hroute, hdst, hnodup, hpath,
                  hroot⟩
              · cases h
              · obtain ⟨n, rfl⟩ : ∃ n, fuel = n + 1 := ⟨fuel - 1, by omega⟩
                rw [searchLoop, hpop]
                dsimp only
                rw [if_neg (not_not.mpr htable), hdst, if_pos rfl, htrace n (by omega)]
                rfl
          | false =>
              by_cases hagrees : Agrees s.prevDirs currGrid
              · obtain ⟨elements'', hnew, hlt⟩ := hrest.expandWavefront (s := { s with
                  wavefront := rest }) hroute hnodup (G.dstBox q).1 (G.dstBox q).2 q.center
                  q.routeWithJumpers
                refine hgo _ elements'' _ hnew (by omega) (hdone.expand hpop hroute hagrees hdst _ _
                  _ _) fun n => ?_
                rw [searchLoop, hpop]
                dsimp only
                rw [if_neg (not_not.mpr htable), hdst, if_neg Bool.false_ne_true]
              · refine hgo _ elements' done hrest (by omega) (hdone.drop hpop hroute hagrees)
                  fun n => ?_
                rw [searchLoop, hpop]
                dsimp only
                rw [if_neg (not_not.mpr htable), hdst, if_neg Bool.false_ne_true,
                  expandWavefront_of_not_agrees (s := { s with wavefront := rest }) _ _ _ _
                    hagrees]

/-- **The maze search is sound and complete**: with any costs and any order of equal elements it
ends, and answers whether a destination is reachable, with a walk that reaches one. -/
theorem search_answers (Q : TopQueue FlexWavefrontGrid.less) {q : Query}
    (hsrcs : ∀ idx, G.srcs idx = true ↔ idx ∈ q.connComps) :
    ∃ r, Answers G q r ∧ ∃ bound, ∀ fuel, bound ≤ fuel → G.search Q q fuel = some r := by
  unfold search
  cases hfind : q.connComps.find? G.dsts with
  | some idx =>
      have hdst : G.dsts idx = true := List.find?_some hfind
      have hmem : idx ∈ q.connComps := List.mem_of_find?_eq_some hfind
      refine ⟨⟨true, q.connComps, [idx], q.ccMazeIdx, fun _ => .unknown, false⟩, ?_, 0,
        fun _ _ => rfl⟩
      refine ⟨⟨fun _ => ⟨idx, hmem, [], idx, .nil, hdst⟩, fun _ => rfl⟩, fun _ => ?_, fun h => ?_,
        rfl⟩
      · exact ⟨idx, hmem, [], idx, .nil, hdst, List.nodup_nil, rfl, (List.append_nil _).symm⟩
      · cases h
  | none =>
      have hno : ∀ idx ∈ q.connComps, G.dsts idx = false := by
        intro idx hidx
        rw [← Bool.not_eq_true]
        exact List.find?_eq_none.mp hfind idx hidx
      set start : Search :=
        { prevDirs := fun _ => .unknown
          wavefront := (q.connComps.map (G.sourceGrid q)).reverse }
      have hmem : ∀ grid, grid ∈ start.wavefront ↔
          ∃ idx ∈ q.connComps, G.sourceGrid q idx = grid := by
        intro grid
        rw [List.mem_reverse, List.mem_map]
      have hrouted : Routed G start (start.wavefront.map fun grid => (grid, [])) := by
        constructor
        · rw [List.map_map]
          exact List.Perm.of_eq (List.map_id' _).symm
        · intro element helement
          obtain ⟨grid, hgrid, rfl⟩ := List.mem_map.mp helement
          obtain ⟨idx, hidx, rfl⟩ := (hmem grid).mp hgrid
          refine ⟨idx, ?_, List.nodup_nil⟩
          have hlast : getLastDir (G.sourceGrid q idx).backTraceBuffer = .unknown :=
            getLastDir_zero
          have holder : getOlderDir (G.sourceGrid q idx).backTraceBuffer = .unknown :=
            getOlderDir_zero
          unfold RouteOf
          rw [hlast, holder]
          exact .source ((hsrcs idx).mpr hidx)
      have hpassed : Passed G start fun _ _ => False := by
        refine ⟨fun grid hgrid hlast => ?_, fun idx hidx => ?_, fun idx h => absurd rfl h,
          fun _ _ h => h.elim, fun _ _ h => h.elim⟩
        · obtain ⟨idx, -, rfl⟩ := (hmem grid).mp hgrid
          exact absurd getLastDir_zero hlast
        · exact Or.inr ⟨_, (hmem _).mpr ⟨idx, (hsrcs idx).mp hidx, rfl⟩, rfl, getLastDir_zero⟩
      obtain ⟨r, hr, hloop⟩ := searchLoop_answers Q hsrcs hno _ hrouted (le_refl _) hpassed
      exact ⟨r, hr, _, hloop⟩

/-- A grid of two rows with all edges, a wide rule that may not run along the border of the die, and
a source and a destination in the lower row. -/
def tworows : FlexGridGraph where
  xCoords := [0, 10, 20]
  yCoords := [5, 15]
  zHeights := [0]
  nodes idx := ⟨decide (idx.x + 1 < 3), decide (idx.y + 1 < 2), decide (idx.z + 1 < 1)⟩
  srcs idx := decide (idx ∈ [(⟨0, 0, 0⟩ : FlexMazeIdx)])
  dsts idx := decide (idx = ⟨2, 0, 0⟩)
  dieBox := ⟨-20, 0, 40, 40⟩
  layerWidth _ := 4
  ndrWidth := some fun _ => 12
  autoTaperNdrNets := false
  estCost _ _ _ _ := 0
  nextPathCost grid _ _ := grid.pathCost + 1
  east_lt _ h := of_decide_eq_true h
  north_lt _ h := of_decide_eq_true h
  up_lt _ h := of_decide_eq_true h

def tworowsQuery : Query where
  connComps := [⟨0, 0, 0⟩]
  accessPatterns := [⟨2, 0, 0⟩]
  ccMazeIdx := (⟨0, 0, 0⟩, ⟨0, 0, 0⟩)
  center := (0, 0)
  mazeIdx2TaperBox _ := none
  routeWithJumpers := false

theorem tworows_found :
    let Q := TopQueue.firstBest FlexWavefrontGrid.less FlexWavefrontGrid.less_irrefl
      FlexWavefrontGrid.less_trans
    ∃ r, (∃ bound, ∀ fuel, bound ≤ fuel → tworows.search Q tworowsQuery fuel = some r) ∧
      r.found = true ∧ r.warned = false := by
  intro Q
  obtain ⟨r, hr, hfuel⟩ := search_answers (G := tworows) Q (q := tworowsQuery)
    fun idx => decide_eq_true_iff
  refine ⟨r, hfuel, hr.found_iff.mpr ?_, hr.not_warned⟩
  -- around the border: up, along the upper row, and down
  have hup : tworows.Permitted ⟨0, 0, 0⟩ .N := ⟨rfl, rfl⟩
  have hfirst : tworows.Permitted ⟨0, 1, 0⟩ .E := ⟨rfl, rfl⟩
  have hsecond : tworows.Permitted ⟨1, 1, 0⟩ .E := ⟨rfl, rfl⟩
  have hdown : tworows.Permitted ⟨2, 1, 0⟩ .S := ⟨rfl, rfl⟩
  exact ⟨⟨0, 0, 0⟩, List.mem_singleton_self _, _, _,
    .cons (.cons (.cons (.cons .nil hup) hfirst) hsecond) hdown, rfl⟩

example : ((tworows.search (TopQueue.firstBest FlexWavefrontGrid.less
    FlexWavefrontGrid.less_irrefl FlexWavefrontGrid.less_trans) tworowsQuery 20).map
      Result.path) = some [⟨2, 0, 0⟩, ⟨2, 1, 0⟩, ⟨0, 1, 0⟩, ⟨0, 0, 0⟩] := by
  decide +kernel

end FlexGridGraph

end OpenRoad.Drt
