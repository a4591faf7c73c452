import OpenRoad.CtsSinkLoops

/-!
What the loops of the sink clustering make. Every solution is the clusters of the points from its own
start on and around, whatever order the loops take them in; a run overruns a vector exactly when
there are more solutions than points.
-/

namespace OpenRoad.Cts

namespace SinkClustering

/-- The clusters that are full, and the one that is open, after some points. -/
def placed (isLimitExceeded : List Nat → Nat → Bool) (points : List Nat) :
    List (List Nat) × List Nat :=
  points.foldl
    (fun (placed : List (List Nat) × List Nat) idx =>
      if isLimitExceeded placed.2 idx then (placed.1 ++ [placed.2], [idx])
      else (placed.1, placed.2 ++ [idx]))
    ([], [])

variable {isLimitExceeded : List Nat → Nat → Bool}

theorem clusters_eq (points : List Nat) : clusters isLimitExceeded points =
    (placed isLimitExceeded points).1 ++ [(placed isLimitExceeded points).2] := rfl

theorem placed_append (points : List Nat) (idx : Nat) :
    placed isLimitExceeded (points ++ [idx]) =
      if isLimitExceeded (placed isLimitExceeded points).2 idx then
        ((placed isLimitExceeded points).1 ++ [(placed isLimitExceeded points).2], [idx])
      else ((placed isLimitExceeded points).1, (placed isLimitExceeded points).2 ++ [idx]) := by
  unfold placed
  rw [List.foldl_append, List.foldl_cons, List.foldl_nil]

theorem mem_placed {points : List Nat} {idx : Nat} (h : idx ∈ (placed isLimitExceeded points).2) :
    idx ∈ points := by
  rw [← clusters_flatten isLimitExceeded points, clusters_eq]
  exact List.mem_flatten.mpr ⟨_, List.mem_append_right _ (List.mem_singleton_self _), h⟩

/-- What a point alone has, and what a point keeps that may join, all clusters have. -/
theorem forall_mem_clusters {ok : List Nat → Prop} (hnil : ok []) (hone : ∀ idx, ok [idx])
    (hsnoc : ∀ cluster idx, ok cluster → isLimitExceeded cluster idx = false →
      ok (cluster ++ [idx])) (points : List Nat) :
    ∀ cluster ∈ clusters isLimitExceeded points, ok cluster := by
  induction points using List.reverseRecOn with
  | nil =>
      intro cluster hcluster
      rw [List.mem_singleton.mp hcluster]
      exact hnil
  | append_singleton points idx ih =>
      rw [clusters_eq] at ih
      have hopen := ih _ (List.mem_append_right _ (List.mem_singleton_self _))
      rw [clusters_eq, placed_append]
      split_ifs with hexceeded
      · intro cluster hcluster
        rcases List.mem_append.mp hcluster with h | h
        · exact ih cluster h
        · rw [List.mem_singleton.mp h]
          exact hone idx
      · intro cluster hcluster
        rcases List.mem_append.mp hcluster with h | h
        · exact ih cluster (List.mem_append_left _ h)
        · rw [List.mem_singleton.mp h]
          exact hsnoc _ _ hopen (by simpa using hexceeded)

end SinkClustering

open SinkClustering

namespace Sinks

variable {P : Type} (sinks : Sinks P) (request : SinkRequest)

/-- Whether a point starts a new cluster. -/
def exceeded (cluster : List Nat) (idx : Nat) : Bool :=
  ((sinks.measure request cluster idx).map fun costs =>
    sinks.isLimitExceeded request cluster.length costs.1 costs.2 request.groupSize).getD true

theorem exists_measure {cluster : List Nat} (hcluster : ∀ i ∈ cluster, i < sinks.points.length)
    {idx : Nat} (hidx : idx < sinks.points.length) :
    ∃ costs, sinks.measure request cluster idx = some costs := by
  have hcap : idx < sinks.pointsCap.length := sinks.length_pointsCap ▸ hidx
  obtain ⟨costs, hcosts, -⟩ := @Run.run_total _ _
    (fun (costs : ℚ × ℚ) pointIdx => sinks.points[pointIdx]?.bind fun comparisonPoint =>
      let cost := sinks.computeDist sinks.points[idx] comparisonPoint
      (if sinks.useMaxCapLimit then
          sinks.pointsCap[pointIdx]?.map fun other => costs.2 + (cost * request.capPerUnit + other)
        else some costs.2).map fun capCost => (if cost > costs.1 then cost else costs.1, capCost))
    (fun rest _ => ∀ i ∈ rest, i < sinks.points.length)
    (fun i rest costs hrest => by
      obtain ⟨hi, hrest⟩ := List.forall_mem_cons.mp hrest
      have hi' : i < sinks.pointsCap.length := sinks.length_pointsCap ▸ hi
      rw [List.getElem?_eq_getElem hi, List.getElem?_eq_getElem hi']
      cases sinks.useMaxCapLimit with
      | false => exact ⟨_, rfl, hrest⟩
      | true => exact ⟨_, rfl, hrest⟩)
    (0, sinks.pointsCap[idx]) cluster hcluster
  refine ⟨costs, ?_⟩
  unfold measure
  rw [List.getElem?_eq_getElem hidx, List.getElem?_eq_getElem hcap]
  exact hcosts

theorem exceeded_eq {cluster : List Nat} {idx : Nat} {costs : ℚ × ℚ}
    (hcosts : sinks.measure request cluster idx = some costs) :
    sinks.exceeded request cluster idx =
      sinks.isLimitExceeded request cluster.length costs.1 costs.2 request.groupSize := by
  unfold exceeded
  rw [hcosts]
  rfl

/-- A solution that has been given some points has their clusters. -/
structure Built (points : List Nat) (grown : GrownSolution) : Prop where
  cluster : grown.cluster = (placed (sinks.exceeded request) points).1.length
  solution : GrownSolutions.allocate [] grown.solution grown.cluster =
    clusters (sinks.exceeded request) points

variable {sinks request}

theorem allocate_of_lt {α : Type} (a : α) {l : List α} {j : Nat} (h : j < l.length) :
    GrownSolutions.allocate a l j = l := if_neg (by omega)

theorem allocate_of_eq {α : Type} (a : α) {l : List α} {j : Nat} (h : l.length = j) :
    GrownSolutions.allocate a l j = l ++ [a] := if_pos (by omega)

/-- Once it has a point the vector of the open cluster is there. -/
theorem place_built {points : List Nat} {grown : GrownSolution}
    (hbuilt : Built sinks request points grown) (hpoints : ∀ i ∈ points, i < sinks.points.length)
    {idx : Nat} (hidx : idx < sinks.points.length) :
    ∃ next, sinks.place request grown idx = some next ∧
      Built sinks request (points ++ [idx]) next ∧
      next.solution = clusters (sinks.exceeded request) (points ++ [idx]) := by
  have hat (full : List (List Nat)) (cluster : List Nat) :
      (full ++ [cluster])[full.length]? = some cluster := by simp
  have hset (full : List (List Nat)) (cluster cluster' : List Nat) :
      (full ++ [cluster]).set full.length cluster' = full ++ [cluster'] := by simp
  have hopen (full : List (List Nat)) (cluster : List Nat) :
      GrownSolutions.allocate [] (full ++ [cluster]) full.length = full ++ [cluster] :=
    allocate_of_lt [] (by simp)
  obtain ⟨costs, hcosts⟩ := sinks.exists_measure request
    (fun i hi => hpoints i (mem_placed hi) : ∀ i ∈ (placed (sinks.exceeded request) points).2, _)
    hidx
  have hexceeded := sinks.exceeded_eq request hcosts
  unfold place
  dsimp only
  rw [hbuilt.solution, hbuilt.cluster, clusters_eq, hat, Option.bind_some, hcosts,
    Option.bind_some, ← hexceeded]
  by_cases hfull : sinks.exceeded request (placed (sinks.exceeded request) points).2 idx = true
  · have hnew : GrownSolutions.allocate [] ((placed (sinks.exceeded request) points).1 ++
        [(placed (sinks.exceeded request) points).2])
          ((placed (sinks.exceeded request) points).1.length + 1) =
        ((placed (sinks.exceeded request) points).1 ++
          [(placed (sinks.exceeded request) points).2]) ++ [[]] := allocate_of_eq [] (by simp)
    have hlen : (placed (sinks.exceeded request) points).1.length + 1 =
        ((placed (sinks.exceeded request) points).1 ++
          [(placed (sinks.exceeded request) points).2]).length := by simp
    rw [if_pos hfull]
    dsimp only
    rw [hnew, hlen, hat]
    refine ⟨_, rfl, ⟨?_, ?_⟩, ?_⟩
    · rw [placed_append, if_pos hfull]
    · dsimp only
      rw [clusters_eq, placed_append, if_pos hfull, hset, hopen]
      rfl
    · dsimp only
      rw [clusters_eq, placed_append, if_pos hfull, hset]
      rfl
  · rw [if_neg hfull]
    dsimp only
    rw [hopen, hat]
    refine ⟨_, rfl, ⟨?_, ?_⟩, ?_⟩
    · rw [placed_append, if_neg hfull]
    · dsimp only
      rw [clusters_eq, placed_append, if_neg hfull, hset, hopen]
    · dsimp only
      rw [clusters_eq, placed_append, if_neg hfull, hset]

theorem built_start : Built sinks request [] {} := ⟨rfl, rfl⟩

/-- The points of a solution can all be placed. -/
theorem run_place_built (points : List Nat) (hpoints : ∀ i ∈ points, i < sinks.points.length) :
    ∃ grown, Run.run (sinks.place request) {} points = some grown ∧
      Built sinks request points grown ∧
      (points ≠ [] → grown.solution = clusters (sinks.exceeded request) points) := by
  induction points using List.reverseRecOn with
  | nil => exact ⟨{}, rfl, built_start, fun h => absurd rfl h⟩
  | append_singleton points idx ih =>
      have hpoints' : ∀ i ∈ points, i < sinks.points.length :=
        fun i hi => hpoints i (List.mem_append_left _ hi)
      obtain ⟨grown, hgrown, hbuilt, -⟩ := ih hpoints'
      obtain ⟨next, hnext, hbuilt', hsolution⟩ := place_built hbuilt hpoints'
        (hpoints idx (List.mem_append_right _ (List.mem_singleton_self idx)))
      refine ⟨next, ?_, hbuilt', fun _ => hsolution⟩
      rw [Run.run_append, hgrown, Option.bind_some, Run.run_cons, hnext]
      rfl

end Sinks

/-! ### The vectors -/

namespace GrownSolutions

/-- A solution, empty where its vector is not there yet. -/
def view (grown : GrownSolutions) (j : Nat) : GrownSolution where
  cluster := grown.clusters[j]?.getD 0
  cost := grown.costs[j]?.getD 0
  previousCost := grown.previousCosts[j]?.getD 0
  solution := grown.solutions[j]?.getD []

/-- The counters of all solutions are there. -/
structure Sized (grown : GrownSolutions) (groupSize : Nat) : Prop where
  clusters : grown.clusters.length = groupSize
  costs : grown.costs.length = groupSize
  previousCosts : grown.previousCosts.length = groupSize

variable {grown : GrownSolutions} {groupSize j : Nat}

theorem get?_eq (hsized : grown.Sized groupSize) (hj : j < groupSize)
    (hsolution : j < grown.solutions.length) : grown.get? j = some (grown.view j) := by
  obtain ⟨hclusters, hcosts, hprevious⟩ := hsized
  have h₁ : j < grown.clusters.length := hclusters ▸ hj
  have h₂ : j < grown.costs.length := hcosts ▸ hj
  have h₃ : j < grown.previousCosts.length := hprevious ▸ hj
  unfold get? view
  rw [List.getElem?_eq_getElem h₁, List.getElem?_eq_getElem h₂, List.getElem?_eq_getElem h₃,
    List.getElem?_eq_getElem hsolution]
  rfl

theorem get?_of_length_le (h : grown.solutions.length ≤ j) : grown.get? j = none := by
  unfold get?
  rw [List.getElem?_eq_none h]
  cases grown.clusters[j]? <;> cases grown.costs[j]? <;> cases grown.previousCosts[j]? <;> rfl

theorem Sized.set (hsized : grown.Sized groupSize) (j : Nat) (next : GrownSolution) :
    (grown.set j next).Sized groupSize :=
  ⟨(List.length_set).trans hsized.clusters, (List.length_set).trans hsized.costs,
    (List.length_set).trans hsized.previousCosts⟩

theorem view_set_self (hsized : grown.Sized groupSize) (hj : j < groupSize)
    (hsolution : j < grown.solutions.length) (next : GrownSolution) :
    (grown.set j next).view j = next := by
  obtain ⟨hclusters, hcosts, hprevious⟩ := hsized
  unfold view set
  dsimp only
  rw [List.getElem?_set_self (hclusters ▸ hj), List.getElem?_set_self (hcosts ▸ hj),
    List.getElem?_set_self (hprevious ▸ hj), List.getElem?_set_self hsolution]
  rfl

theorem view_set_of_ne {k : Nat} (h : j ≠ k) (next : GrownSolution) :
    (grown.set j next).view k = grown.view k := by
  unfold view set
  dsimp only
  rw [List.getElem?_set_ne h, List.getElem?_set_ne h, List.getElem?_set_ne h,
    List.getElem?_set_ne h]

/-- A new vector is empty. -/
theorem view_allocate (grown : GrownSolutions) (j k : Nat) :
    GrownSolutions.view { grown with solutions := allocate [] grown.solutions j } k =
      grown.view k := by
  have hsolutions : ((allocate [] grown.solutions j)[k]?).getD [] =
      (grown.solutions[k]?).getD [] := by
    unfold allocate
    split_ifs
    · rw [List.getElem?_append]
      split_ifs with hk
      · rfl
      · rw [List.getElem?_eq_none (Nat.le_of_not_lt hk)]
        cases k - grown.solutions.length <;> rfl
    · rfl
  unfold view
  dsimp only
  rw [hsolutions]

end GrownSolutions

namespace Sinks

variable {P : Type} {sinks : Sinks P} {request : SinkRequest} {thetaIndexVector : List Nat}

/-- Every solution has been given its points, which `order` tells. -/
structure GrownBy (sinks : Sinks P) (request : SinkRequest) (order : Nat → List Nat)
    (grown : GrownSolutions) : Prop where
  sized : grown.Sized request.groupSize
  built : ∀ j < request.groupSize,
    Run.run (sinks.place request) {} (order j) = some (grown.view j)

theorem GrownBy.congr {order order' : Nat → List Nat} {grown : GrownSolutions}
    (h : GrownBy sinks request order grown)
    (heq : ∀ j < request.groupSize, order j = order' j) : GrownBy sinks request order' grown :=
  ⟨h.sized, fun j hj => heq j hj ▸ h.built j hj⟩

/-- Placing a point in one solution leaves the others alone. -/
theorem placeAt_grownBy {order : Nat → List Nat} {grown : GrownSolutions}
    (hgrown : GrownBy sinks request order grown) {j : Nat} (hj : j < request.groupSize)
    (hsolution : j < grown.solutions.length)
    (horder : ∀ i ∈ order j, i < sinks.points.length) {idx : Nat}
    (hidx : idx < sinks.points.length) :
    ∃ next, sinks.placeAt request grown j idx = some next ∧
      next.solutions.length = grown.solutions.length ∧
      GrownBy sinks request (Function.update order j (order j ++ [idx])) next := by
  obtain ⟨solution, hrun, hbuilt, -⟩ := @run_place_built _ _ request (order j) horder
  obtain rfl : solution = grown.view j := Option.some.inj (hrun.symm.trans (hgrown.built j hj))
  obtain ⟨next, hnext, -, -⟩ := place_built hbuilt horder hidx
  refine ⟨grown.set j next, ?_, List.length_set, hgrown.sized.set j next, fun k hk => ?_⟩
  · unfold placeAt
    rw [GrownSolutions.get?_eq hgrown.sized hj hsolution, Option.bind_some, hnext]
    rfl
  · by_cases hkj : j = k
    · subst hkj
      rw [Function.update_self, GrownSolutions.view_set_self hgrown.sized hj hsolution,
        Run.run_append, hrun, Option.bind_some, Run.run_cons, hnext]
      rfl
    · rw [Function.update_of_ne (Ne.symm hkj), GrownSolutions.view_set_of_ne hkj]
      exact hgrown.built k hk

/-- The points of a solution after `i` turns of the first loop. -/
def grownTo (thetaIndexVector : List Nat) (i j : Nat) : List Nat :=
  (thetaIndexVector.drop j).take i

theorem grownTo_succ (thetaIndexVector : List Nat) (i j : Nat) :
    grownTo thetaIndexVector (i + 1) j =
      grownTo thetaIndexVector i j ++ (thetaIndexVector[i + j]?).toList := by
  unfold grownTo
  rw [List.take_add_one, List.getElem?_drop, Nat.add_comm j i]

theorem mem_grownTo {i j idx : Nat} (h : idx ∈ grownTo thetaIndexVector i j) :
    idx ∈ thetaIndexVector := List.mem_of_mem_drop (List.mem_of_mem_take h)

/-- One turn of the first loop gives each solution that is not at the end of the curve a point. -/
theorem run_growStep (hsize : request.groupSize ≤ thetaIndexVector.length)
    (hpoints : ∀ i ∈ thetaIndexVector, i < sinks.points.length) {i : Nat} {grown : GrownSolutions}
    (hgrown : GrownBy sinks request (grownTo thetaIndexVector i) grown)
    (hlen : grown.solutions.length ≤ request.groupSize)
    (hall : 0 < i → grown.solutions.length = request.groupSize) :
    ∃ next, Run.run (sinks.growStep request thetaIndexVector i) grown
        (List.range request.groupSize) = some next ∧
      GrownBy sinks request (grownTo thetaIndexVector (i + 1)) next ∧
      next.solutions.length = request.groupSize := by
  obtain ⟨next, hnext, hby, hle, hge, -⟩ := Run.run_range'_total
    (f := sinks.growStep request thetaIndexVector i)
    (P := fun k grown => GrownBy sinks request
        (fun j => grownTo thetaIndexVector (if j < k then i + 1 else i) j) grown ∧
      grown.solutions.length ≤ request.groupSize ∧ k ≤ grown.solutions.length ∧
      (0 < i → grown.solutions.length = request.groupSize))
    0 request.groupSize
    (by
      rintro k grown - hk ⟨hby, hle, hge, hall⟩
      rw [Nat.zero_add] at hk
      unfold growStep
      split_ifs with hi
      · have hby' : GrownBy sinks request
            (fun j => grownTo thetaIndexVector (if j < k then i + 1 else i) j)
            { grown with solutions := GrownSolutions.allocate [] grown.solutions k } :=
          ⟨⟨hby.sized.1, hby.sized.2, hby.sized.3⟩, fun j hj => by
            rw [GrownSolutions.view_allocate]
            exact hby.built j hj⟩
        have hlength : (GrownSolutions.allocate [] grown.solutions k).length =
            max grown.solutions.length (k + 1) := by
          unfold GrownSolutions.allocate
          split_ifs
          · rw [List.length_append, List.length_singleton]
            omega
          · omega
        obtain ⟨next, hnext, hlen, hgrown⟩ := placeAt_grownBy hby' hk
          (by dsimp only; omega) (fun i hi => hpoints i (mem_grownTo hi))
          (hpoints _ (List.getElem_mem hi))
        dsimp only at hlen
        refine ⟨next, ?_, hgrown.congr fun j _ => ?_, by omega, by omega, fun h => ?_⟩
        · rw [List.getElem?_eq_getElem hi]
          exact hnext
        · by_cases hjk : j = k
          · subst hjk
            rw [Function.update_self, if_neg (Nat.lt_irrefl j), if_pos (Nat.lt_succ_self j),
              grownTo_succ, List.getElem?_eq_getElem hi]
            rfl
          · rw [Function.update_of_ne hjk]
            simp only [show j < k ↔ j < k + 1 by omega]
        · have := hall h
          omega
      · have hpos : 0 < i := by omega
        refine ⟨grown, rfl, hby.congr fun j hj => ?_, hle, ?_, hall⟩
        · by_cases hjk : j = k
          · subst hjk
            rw [if_neg (Nat.lt_irrefl j), if_pos (Nat.lt_succ_self j), grownTo_succ,
              List.getElem?_eq_none (Nat.le_of_not_lt hi)]
            exact (List.append_nil _).symm
          · simp only [show j < k ↔ j < k + 1 by omega]
        · have := hall hpos
          omega)
    grown ⟨hgrown.congr fun j _ => by rw [if_neg (Nat.not_lt_zero j)], hlen, Nat.zero_le _, hall⟩
  refine ⟨next, ?_, hby.congr fun j hj => by rw [if_pos (by omega)], by omega⟩
  rw [List.range_eq_range']
  exact hnext

/-- After the first loop every solution has the points from its own start on. -/
theorem grow_eq_some (hsize : request.groupSize ≤ thetaIndexVector.length)
    (hpos : thetaIndexVector ≠ []) (hpoints : ∀ i ∈ thetaIndexVector, i < sinks.points.length) :
    ∃ grown, sinks.grow request thetaIndexVector = some grown ∧
      GrownBy sinks request (fun j => thetaIndexVector.drop j) grown ∧
      grown.solutions.length = request.groupSize := by
  have hlt : 0 < thetaIndexVector.length := List.length_pos_iff.mpr hpos
  obtain ⟨grown, hgrown, hby, -, hall⟩ := Run.run_range'_total
    (f := fun grown i => Run.run (sinks.growStep request thetaIndexVector i) grown
      (List.range request.groupSize))
    (P := fun i grown => GrownBy sinks request (grownTo thetaIndexVector i) grown ∧
      grown.solutions.length ≤ request.groupSize ∧
      (0 < i → grown.solutions.length = request.groupSize))
    0 thetaIndexVector.length
    (by
      rintro i grown - - ⟨hby, hle, hall⟩
      obtain ⟨next, hnext, hby, hlen⟩ := run_growStep hsize hpoints hby hle hall
      exact ⟨next, hnext, hby, Nat.le_of_eq hlen, fun _ => hlen⟩)
    (GrownSolutions.init request.groupSize)
    ⟨⟨⟨List.length_replicate, List.length_replicate, List.length_replicate⟩, fun j hj => by
      simp [GrownSolutions.view, GrownSolutions.init, grownTo, hj]⟩, Nat.zero_le _,
      fun h => absurd h (Nat.lt_irrefl 0)⟩
  refine ⟨grown, ?_, hby.congr fun j _ => ?_, hall (by omega)⟩
  · unfold grow
    rw [show List.range thetaIndexVector.length = List.range' 0 thetaIndexVector.length from
      List.range_eq_range']
    exact hgrown
  · exact List.take_of_length_le (by rw [List.length_drop]; omega)

/-- The second loop gives every solution the points before its start. -/
theorem wrap_eq_some (hsize : request.groupSize ≤ thetaIndexVector.length)
    (hpoints : ∀ i ∈ thetaIndexVector, i < sinks.points.length) {grown : GrownSolutions}
    (hgrown : GrownBy sinks request (fun j => thetaIndexVector.drop j) grown)
    (hlen : grown.solutions.length = request.groupSize) :
    ∃ next, sinks.wrap request thetaIndexVector grown = some next ∧
      GrownBy sinks request (fun j => thetaIndexVector.drop j ++ thetaIndexVector.take j) next ∧
      next.solutions.length = request.groupSize := by
  have hmem (i j idx : Nat) (h : idx ∈ thetaIndexVector.drop j ++ thetaIndexVector.take i) :
      idx ∈ thetaIndexVector :=
    (List.mem_append.mp h).elim List.mem_of_mem_drop List.mem_of_mem_take
  obtain ⟨next, hnext, hby, hlen⟩ := Run.run_range'_total
    (f := fun grown i => Run.run (sinks.wrapStep request thetaIndexVector i) grown
      (List.range' (i + 1) (request.groupSize - (i + 1))))
    (P := fun i grown => GrownBy sinks request
        (fun j => thetaIndexVector.drop j ++ thetaIndexVector.take (min i j)) grown ∧
      grown.solutions.length = request.groupSize)
    0 request.groupSize
    (by
      rintro i grown - hi ⟨hby, hlen⟩
      rw [Nat.zero_add] at hi
      have hi' : i < thetaIndexVector.length := by omega
      obtain ⟨next, hnext, hby, hlen⟩ := Run.run_range'_total
        (f := sinks.wrapStep request thetaIndexVector i)
        (P := fun k grown => GrownBy sinks request
            (fun j => thetaIndexVector.drop j ++
              thetaIndexVector.take (min (if j < k then i + 1 else i) j)) grown ∧
          grown.solutions.length = request.groupSize)
        (i + 1) (request.groupSize - (i + 1))
        (by
          rintro k grown hik hk ⟨hby, hlen⟩
          obtain ⟨next, hnext, hlen', hgrown⟩ := placeAt_grownBy hby (j := k) (by omega) (by omega)
            (fun _ hidx => hpoints _ (hmem _ _ _ hidx)) (hpoints _ (List.getElem_mem hi'))
          refine ⟨next, ?_, hgrown.congr fun j _ => ?_, hlen'.trans hlen⟩
          · unfold wrapStep
            rw [List.getElem?_eq_getElem hi']
            exact hnext
          · by_cases hjk : j = k
            · subst hjk
              rw [Function.update_self, if_neg (Nat.lt_irrefl j), if_pos (Nat.lt_succ_self j),
                Nat.min_eq_left (by omega), Nat.min_eq_left (by omega), List.take_add_one,
                List.getElem?_eq_getElem hi', List.append_assoc]
              rfl
            · rw [Function.update_of_ne hjk]
              simp only [show j < k ↔ j < k + 1 by omega])
        grown ⟨hby.congr fun j _ => by
          split_ifs
          · rw [Nat.min_eq_right (by omega), Nat.min_eq_right (by omega)]
          · rfl, hlen⟩
      refine ⟨next, hnext, hby.congr fun j hj => ?_, hlen⟩
      rw [if_pos (by omega)])
    grown ⟨hgrown.congr fun j _ => by
      rw [Nat.zero_min, List.take_zero, List.append_nil], hlen⟩
  refine ⟨next, ?_, hby.congr fun j hj => ?_, hlen⟩
  · unfold wrap
    rw [List.range_eq_range']
    exact hnext
  · rw [Nat.min_eq_right (by omega)]

/-- With more solutions than points there is a solution that the first loop does not reach. -/
theorem grow_length {grown : GrownSolutions}
    (h : sinks.grow request thetaIndexVector = some grown) :
    grown.solutions.length ≤ thetaIndexVector.length := by
  refine @Run.run_invariant_of_step _ _ _
    (fun grown : GrownSolutions => grown.solutions.length ≤ thetaIndexVector.length)
    (fun grown i grown' hle hturn => ?_) _ _ _ (Nat.zero_le _) h
  refine @Run.run_invariant_of_step _ _ _
    (fun grown : GrownSolutions => grown.solutions.length ≤ thetaIndexVector.length)
    (fun grown j grown' hle hstep => ?_) _ _ _ hle hturn
  unfold growStep at hstep
  split_ifs at hstep with hi
  · obtain ⟨idx, -, hplace⟩ := Option.bind_eq_some_iff.mp hstep
    obtain ⟨_, -, hset⟩ := Option.bind_eq_some_iff.mp hplace
    obtain ⟨_, -, rfl⟩ := Option.map_eq_some_iff.mp hset
    refine (List.length_set).trans_le ?_
    dsimp only
    unfold GrownSolutions.allocate
    split_ifs
    · rw [List.length_append, List.length_singleton]
      omega
    · exact hle
  · obtain rfl := Option.some.inj hstep
    exact hle

theorem wrap_eq_none (hpos : thetaIndexVector ≠ [])
    (hsize : thetaIndexVector.length < request.groupSize) {grown : GrownSolutions}
    (hle : grown.solutions.length ≤ thetaIndexVector.length) :
    sinks.wrap request thetaIndexVector grown = none := by
  have hlt : 0 < thetaIndexVector.length := List.length_pos_iff.mpr hpos
  have hkeep (i : Nat) (grown : GrownSolutions) (j : Nat) (next : GrownSolutions)
      (hle : grown.solutions.length ≤ thetaIndexVector.length)
      (hstep : sinks.wrapStep request thetaIndexVector i grown j = some next) :
      next.solutions.length ≤ thetaIndexVector.length := by
    obtain ⟨idx, -, hplace⟩ := Option.bind_eq_some_iff.mp hstep
    obtain ⟨_, -, hset⟩ := Option.bind_eq_some_iff.mp hplace
    obtain ⟨_, -, rfl⟩ := Option.map_eq_some_iff.mp hset
    exact (List.length_set).trans_le hle
  cases hwrap : sinks.wrap request thetaIndexVector grown with
  | none => rfl
  | some next =>
      obtain ⟨t, t', hle, hturn⟩ := Run.run_step_of_mem
        (fun grown i next hle hturn =>
          Run.run_invariant_of_step (hkeep i) hle hturn)
        hle hwrap (List.mem_range.mpr (by omega : 0 < request.groupSize))
      obtain ⟨u, u', hle, hstep⟩ := Run.run_step_of_mem (hkeep 0) hle hturn
        (List.mem_range'_1.mpr (by omega : 0 + 1 ≤ thetaIndexVector.length ∧
          thetaIndexVector.length < 0 + 1 + (request.groupSize - (0 + 1))))
      obtain ⟨idx, -, hplace⟩ := Option.bind_eq_some_iff.mp hstep
      unfold placeAt at hplace
      rw [GrownSolutions.get?_of_length_le hle] at hplace
      exact absurd hplace (Option.some_ne_none _).symm

/-! ### The best solution -/

variable (sinks request) in
/-- What the loops decide in a run, for the clusters alone. -/
def grouping (thetaIndexVector : List Nat) : Grouping where
  groupSize := request.groupSize
  isLimitExceeded := sinks.exceeded request
  costs := fun j => ((Run.run (sinks.place request) {}
    (thetaIndexVector.drop j ++ thetaIndexVector.take j)).map GrownSolution.cost).getD 0

/-- What is known of the best solution after some have been looked at. -/
structure Looked (sinks : Sinks P) (request : SinkRequest) (matching : SinkClustering)
    (best : BestMatching) (abstract : SinkClustering) : Prop where
  found : best.bestSolutionFound = true → 1 ≤ best.bestSolution ∧
    best.bestSolution < request.groupSize ∧ abstract = { matching with
      bestSolution := clusters (sinks.exceeded request)
        (matching.thetaIndexVector.drop best.bestSolution ++
          matching.thetaIndexVector.take best.bestSolution)
      bestSolutionCost := best.bestSolutionCost }
  kept : best.bestSolutionFound = false → abstract = matching ∧
    best.bestSolutionCost = matching.bestSolutionCost

theorem Looked.cost_eq {matching abstract : SinkClustering} {best : BestMatching}
    (h : Looked sinks request matching best abstract) :
    abstract.bestSolutionCost = best.bestSolutionCost ∧
      abstract.thetaIndexVector = matching.thetaIndexVector := by
  cases hfound : best.bestSolutionFound with
  | true =>
      rw [(h.found hfound).2.2]
      exact ⟨rfl, rfl⟩
  | false =>
      obtain ⟨rfl, hcost⟩ := h.kept hfound
      exact ⟨hcost.symm, rfl⟩

/-- One more solution is looked at. -/
theorem Looked.step {matching abstract : SinkClustering} {best : BestMatching}
    (h : Looked sinks request matching best abstract) {j : Nat} (hpos : 1 ≤ j)
    (hj : j < request.groupSize) (cost : ℚ) :
    Looked sinks request matching
      (if best.bestSolutionCost.all fun bestCost => decide (cost < bestCost) then
        { bestSolution := j, bestSolutionFound := true, bestSolutionCost := some cost }
      else best)
      (if abstract.bestSolutionCost.all fun bestCost => decide (cost < bestCost) then
        { abstract with
          bestSolution := clusters (sinks.exceeded request)
            (abstract.thetaIndexVector.drop j ++ abstract.thetaIndexVector.take j)
          bestSolutionCost := some cost }
      else abstract) := by
  obtain ⟨hcost, htheta⟩ := h.cost_eq
  rw [hcost, htheta]
  split_ifs with hbetter
  · refine ⟨fun _ => ⟨hpos, hj, ?_⟩, fun hfound => absurd hfound.symm Bool.false_ne_true⟩
    cases matching
    cases abstract
    cases htheta
    rfl
  · exact h

/-- The loop over the solutions looks at what the clusters alone would be looked at for. -/
theorem findMinimum_looked {matching : SinkClustering} {grown : GrownSolutions}
    (hgrown : GrownBy sinks request
      (fun j => matching.thetaIndexVector.drop j ++ matching.thetaIndexVector.take j) grown)
    (hsize : request.groupSize ≤ matching.thetaIndexVector.length) :
    ∃ best abstract, grown.findMinimum matching.bestSolutionCost request.groupSize = some best ∧
      matching.findBestMatching (sinks.grouping request matching.thetaIndexVector) =
        some abstract ∧
      Looked sinks request matching best abstract ∧
      (2 ≤ request.groupSize → matching.bestSolutionCost = none → best.bestSolutionFound = true) := by
  let costs := (sinks.grouping request matching.thetaIndexVector).costs
  let look := fun (abstract : SinkClustering) j =>
    if abstract.bestSolutionCost.all fun bestCost => decide (costs j < bestCost) then
      { abstract with
        bestSolution := clusters (sinks.exceeded request)
          (abstract.thetaIndexVector.drop j ++ abstract.thetaIndexVector.take j)
        bestSolutionCost := some (costs j) }
    else abstract
  obtain ⟨best, hbest, hlooked, hfound⟩ := Run.run_range'_total
    (f := fun (best : BestMatching) j => grown.costs[j]?.map fun cost =>
      if best.bestSolutionCost.all fun bestCost => decide (cost < bestCost) then
        { bestSolution := j, bestSolutionFound := true, bestSolutionCost := some cost }
      else best)
    (P := fun k best => Looked sinks request matching best
        ((List.range' 1 (k - 1)).foldl look matching) ∧
      (2 ≤ k → matching.bestSolutionCost = none → best.bestSolutionFound = true))
    1 (request.groupSize - 1)
    (by
      rintro k best hpos hk ⟨hlooked, hfound⟩
      have hk' : k < request.groupSize := by omega
      have hcost : grown.costs[k]? = some (costs k) := by
        have hlt : k < grown.costs.length := hgrown.sized.costs ▸ hk'
        have hview : costs k = (grown.view k).cost := by
          show ((Run.run (sinks.place request) {} _).map GrownSolution.cost).getD 0 = _
          rw [hgrown.built k hk']
          rfl
        rw [hview, GrownSolutions.view, List.getElem?_eq_getElem hlt]
        rfl
      have hsucc : (List.range' 1 (k + 1 - 1)).foldl look matching =
          look ((List.range' 1 (k - 1)).foldl look matching) k := by
        rw [show k + 1 - 1 = k - 1 + 1 by omega, List.range'_concat, List.foldl_append,
          show 1 + 1 * (k - 1) = k by omega]
        rfl
      rw [hcost]
      refine ⟨_, rfl, ?_, fun _ hnone => ?_⟩
      · rw [hsucc]
        exact hlooked.step hpos hk' (costs k)
      · dsimp only
        split_ifs with hbetter
        · rfl
        · cases hbest : best.bestSolutionFound with
          | true => rfl
          | false =>
              rw [(hlooked.kept hbest).2, hnone] at hbetter
              exact absurd rfl hbetter)
    { bestSolutionCost := matching.bestSolutionCost }
    ⟨⟨fun h => absurd h Bool.false_ne_true, fun _ => ⟨rfl, rfl⟩⟩, fun h => absurd h (by decide)⟩
  refine ⟨best, _, hbest, ?_, hlooked, fun h => hfound (by omega)⟩
  unfold SinkClustering.findBestMatching
  rw [if_pos (show (sinks.grouping request matching.thetaIndexVector).groupSize ≤ _ from hsize)]
  rw [show 1 + (request.groupSize - 1) - 1 = request.groupSize - 1 by omega]
  rfl

/-- What a run of the loops finds, and that it is what the clusters alone give. -/
theorem findBestMatching_eq_some {matching : SinkClustering}
    (hsize : request.groupSize ≤ matching.thetaIndexVector.length)
    (hpos : matching.thetaIndexVector ≠ [])
    (hpoints : ∀ i ∈ matching.thetaIndexVector, i < sinks.points.length) :
    ∃ found matching', sinks.findBestMatching request matching = some (found, matching') ∧
      matching.findBestMatching (sinks.grouping request matching.thetaIndexVector) =
        some matching' ∧
      (found = true → ∃ j, 1 ≤ j ∧ j < request.groupSize ∧
        matching'.bestSolution = clusters (sinks.exceeded request)
          (matching.thetaIndexVector.drop j ++ matching.thetaIndexVector.take j)) ∧
      (2 ≤ request.groupSize → matching.bestSolutionCost = none → found = true) := by
  obtain ⟨grown, hgrow, hby, hlen⟩ := grow_eq_some hsize hpos hpoints
  obtain ⟨grown', hwrap, hby', hlen'⟩ := wrap_eq_some hsize hpoints hby hlen
  obtain ⟨best, abstract, hbest, habstract, hlooked, hfirst⟩ := findMinimum_looked hby' hsize
  unfold findBestMatching
  rw [hgrow, Option.bind_some, hwrap, Option.bind_some, hbest, Option.bind_some]
  cases hfound : best.bestSolutionFound with
  | false =>
      obtain ⟨rfl, -⟩ := hlooked.kept hfound
      refine ⟨false, abstract, rfl, habstract, fun h => absurd h Bool.false_ne_true, ?_⟩
      rw [← hfound]
      exact hfirst
  | true =>
      obtain ⟨hone, hlt, rfl⟩ := hlooked.found hfound
      have hmem : ∀ i ∈ matching.thetaIndexVector.drop best.bestSolution ++
          matching.thetaIndexVector.take best.bestSolution, i < sinks.points.length := fun i hi =>
        hpoints i ((List.mem_append.mp hi).elim List.mem_of_mem_drop List.mem_of_mem_take)
      have hne : matching.thetaIndexVector.drop best.bestSolution ++
          matching.thetaIndexVector.take best.bestSolution ≠ [] := by
        intro hnil
        have hdrop := congrArg List.length (List.append_eq_nil_iff.mp hnil).1
        rw [List.length_drop, List.length_nil] at hdrop
        omega
      obtain ⟨solution, hrun, -, hclusters⟩ := @run_place_built _ _ request _ hmem
      obtain rfl := Option.some.inj (hrun.symm.trans (hby'.built _ hlt))
      have hsolution : grown'.solutions[best.bestSolution]? =
          some (clusters (sinks.exceeded request)
            (matching.thetaIndexVector.drop best.bestSolution ++
              matching.thetaIndexVector.take best.bestSolution)) := by
        have hin : best.bestSolution < grown'.solutions.length := hlen' ▸ hlt
        rw [← hclusters hne, GrownSolutions.view, List.getElem?_eq_getElem hin]
        rfl
      refine ⟨true, _, ?_, habstract, fun _ => ⟨best.bestSolution, hone, hlt, rfl⟩, fun _ _ => rfl⟩
      rw [if_pos rfl, hsolution]
      rfl

theorem findBestMatching_eq_none {matching : SinkClustering}
    (hsize : matching.thetaIndexVector.length < request.groupSize)
    (hpos : matching.thetaIndexVector ≠ []) : sinks.findBestMatching request matching = none := by
  unfold findBestMatching
  cases hgrow : sinks.grow request matching.thetaIndexVector with
  | none => rfl
  | some grown =>
      rw [Option.bind_some, wrap_eq_none hpos hsize (grow_length hgrow)]
      rfl

/-! ### The limits -/

/-- The distance that is measured is the largest to a point of the cluster. -/
theorem le_measure {cluster : List Nat} {idx : Nat} {costs : ℚ × ℚ}
    (hcosts : sinks.measure request cluster idx = some costs) {p q : P} {i : Nat}
    (hp : sinks.points[idx]? = some p) (hi : i ∈ cluster) (hq : sinks.points[i]? = some q) :
    sinks.computeDist p q ≤ costs.1 := by
  unfold measure at hcosts
  rw [hp, Option.bind_some] at hcosts
  obtain ⟨cap, -, hrun⟩ := Option.bind_eq_some_iff.mp hcosts
  generalize hstart : ((0, cap) : ℚ × ℚ) = start at hrun
  clear hstart hcosts
  suffices hall : start.1 ≤ costs.1 ∧ ∀ i ∈ cluster, ∀ q, sinks.points[i]? = some q →
      sinks.computeDist p q ≤ costs.1 from hall.2 i hi q hq
  clear hi hq
  induction cluster generalizing start with
  | nil =>
      cases hrun
      exact ⟨le_refl _, fun i hi => absurd hi List.not_mem_nil⟩
  | cons k cluster ih =>
      obtain ⟨next, hnext, hrest⟩ := Option.bind_eq_some_iff.mp hrun
      obtain ⟨hle, hall⟩ := ih next hrest
      obtain ⟨q, hq, hcost⟩ := Option.bind_eq_some_iff.mp hnext
      obtain ⟨capCost, -, rfl⟩ := Option.map_eq_some_iff.mp hcost
      have hmax : start.1 ≤ costs.1 ∧ sinks.computeDist p q ≤ costs.1 := by
        dsimp only at hle
        split_ifs at hle with hgt
        · exact ⟨(le_of_lt hgt).trans hle, hle⟩
        · exact ⟨hle, (not_lt.mp hgt).trans hle⟩
      refine ⟨hmax.1, List.forall_mem_cons.mpr ⟨fun q' hq' => ?_, hall⟩⟩
      obtain rfl := Option.some.inj (hq.symm.trans hq')
      exact hmax.2

/-- A cluster within the limits of a run. -/
structure Within (sinks : Sinks P) (request : SinkRequest) (cluster : List Nat) : Prop where
  size : cluster.length ≤ request.groupSize
  dist : ∀ i ∈ cluster, ∀ k ∈ cluster, i ≠ k → ∀ p q, sinks.points[i]? = some p →
    sinks.points[k]? = some q → sinks.computeDist p q ≤ request.maxInternalDiameter

/-- Without the capacitance limit all clusters are within the limits. -/
theorem within_clusters (hcap : sinks.useMaxCapLimit = false) (hsize : 1 ≤ request.groupSize)
    (points : List Nat) : ∀ cluster ∈ clusters (sinks.exceeded request) points,
      Within sinks request cluster := by
  refine @forall_mem_clusters (sinks.exceeded request) (Within sinks request)
    ⟨Nat.zero_le _, fun i hi => absurd hi List.not_mem_nil⟩
    (fun idx => ⟨hsize, fun i hi k hk hne => ?_⟩) (fun cluster idx hcluster hexceeded => ?_) points
  · exact absurd ((List.mem_singleton.mp hi).trans (List.mem_singleton.mp hk).symm) hne
  · cases hmeasure : sinks.measure request cluster idx with
    | none =>
        unfold exceeded at hexceeded
        rw [hmeasure] at hexceeded
        exact absurd hexceeded.symm Bool.false_ne_true
    | some costs =>
        rw [sinks.exceeded_eq request hmeasure, isLimitExceeded, hcap,
          if_neg Bool.false_ne_true] at hexceeded
        have hnot := of_decide_eq_false hexceeded
        push Not at hnot
        have hnew : ∀ i ∈ cluster, ∀ p q, sinks.points[idx]? = some p → sinks.points[i]? = some q →
            sinks.computeDist p q ≤ request.maxInternalDiameter :=
          fun i hi p q hp hq => (le_measure hmeasure hp hi hq).trans hnot.2
        refine ⟨?_, fun i hi k hk hne p q hp hq => ?_⟩
        · rw [List.length_append, List.length_singleton]
          omega
        · rcases List.mem_append.mp hi with hi' | hi' <;>
            rcases List.mem_append.mp hk with hk' | hk'
          · exact hcluster.dist i hi' k hk' hne p q hp hq
          · obtain rfl := List.mem_singleton.mp hk'
            rw [sinks.computeDist_comm]
            exact hnew i hi' q p hq hp
          · obtain rfl := List.mem_singleton.mp hi'
            exact hnew k hk' p q hp hq
          · exact absurd ((List.mem_singleton.mp hi').trans (List.mem_singleton.mp hk').symm) hne

/-! ### Runs -/

/-- The states of a `SinkClustering`: after the first run the points are sorted. -/
def Prepared (sinks : Sinks P) (runs : SinkRuns) : Prop :=
  runs.firstRun = false → runs.thetaIndexVector = sinks.sortedPoints

variable (sinks) in
/-- The runs on a new `SinkClustering`. -/
def runAll (requests : List SinkRequest) : Option SinkRuns :=
  Run.run (fun runs request => (sinks.run request runs).map Prod.snd)
    { thetaIndexVector := [] } requests

theorem length_sortedPoints : sinks.sortedPoints.length = sinks.points.length := by
  unfold sortedPoints SinkClustering.sortPoints
  rw [(List.perm_insertionSort _ _).length_eq, List.length_range]

theorem sortedPoints_perm : sinks.sortedPoints.Perm (List.range sinks.points.length) :=
  List.perm_insertionSort _ _

/-- What a run works with. -/
theorem Prepared.order_eq {runs : SinkRuns} (h : Prepared sinks runs) :
    (if runs.firstRun then sinks.sortedPoints else runs.thetaIndexVector) = sinks.sortedPoints := by
  cases hfirst : runs.firstRun with
  | true => rfl
  | false => exact h hfirst

theorem findBestMatching_thetaIndexVector {matching matching' : SinkClustering} {found : Bool}
    (h : sinks.findBestMatching request matching = some (found, matching')) :
    matching'.thetaIndexVector = matching.thetaIndexVector := by
  obtain ⟨_, -, h⟩ := Option.bind_eq_some_iff.mp h
  obtain ⟨_, -, h⟩ := Option.bind_eq_some_iff.mp h
  obtain ⟨best, -, h⟩ := Option.bind_eq_some_iff.mp h
  split_ifs at h
  · obtain ⟨_, -, heq⟩ := Option.map_eq_some_iff.mp h
    cases heq
    rfl
  · cases h
    rfl

theorem runAll_prepared {requests : List SinkRequest} {runs : SinkRuns}
    (h : sinks.runAll requests = some runs) : Prepared sinks runs := by
  refine @Run.run_invariant_of_step _ _ _ (Prepared sinks) (fun runs request next hruns hstep => ?_)
    _ _ _ (fun hfirst => absurd hfirst.symm Bool.false_ne_true) h
  obtain ⟨found, hfound, rfl⟩ := Option.map_eq_some_iff.mp hstep
  obtain ⟨matched, hmatched, rfl⟩ := Option.map_eq_some_iff.mp hfound
  intro _
  exact (findBestMatching_thetaIndexVector hmatched).trans hruns.order_eq

/-- What is asked of a run: it does not overrun a vector, a solution that it stores has every point in
one cluster and keeps the limits, and the first run stores one. -/
def RunsRight (sinks : Sinks P) (request : SinkRequest) (requests : List SinkRequest)
    (runs : SinkRuns) : Prop :=
  ∃ found next, sinks.run request runs = some (found, next) ∧
    (found = true → next.bestSolution.flatten.Perm (List.range sinks.points.length) ∧
      (sinks.useMaxCapLimit = false →
        ∀ cluster ∈ next.bestSolution, Within sinks request cluster)) ∧
    (requests = [] → found = true)

theorem run_eq_none {runs : SinkRuns} (hruns : Prepared sinks runs) (hpos : sinks.points ≠ [])
    (hsize : sinks.points.length < request.groupSize) : sinks.run request runs = none := by
  have hlt : 0 < sinks.points.length := List.length_pos_iff.mpr hpos
  unfold run
  dsimp only
  rw [hruns.order_eq, findBestMatching_eq_none]
  · rfl
  · exact length_sortedPoints.trans_lt hsize
  · exact List.ne_nil_of_length_pos (length_sortedPoints.symm ▸ hlt)

theorem run_eq_some {runs : SinkRuns} (hruns : Prepared sinks runs) (hpos : sinks.points ≠ [])
    (hsize : request.groupSize ≤ sinks.points.length) :
    ∃ found next, sinks.run request runs = some (found, next) ∧
      (found = true → ∃ j, 1 ≤ j ∧ j < request.groupSize ∧
        next.bestSolution = clusters (sinks.exceeded request)
          (sinks.sortedPoints.drop j ++ sinks.sortedPoints.take j)) ∧
      (2 ≤ request.groupSize → runs.bestSolutionCost = none → found = true) := by
  have hlt : 0 < sinks.points.length := List.length_pos_iff.mpr hpos
  obtain ⟨found, matching, hfind, -, hfound, hfirst⟩ := @findBestMatching_eq_some
    _ sinks request { runs.toSinkClustering with thetaIndexVector := sinks.sortedPoints }
    (hsize.trans_eq length_sortedPoints.symm)
    (List.ne_nil_of_length_pos (length_sortedPoints.symm ▸ hlt))
    (fun i hi => List.mem_range.mp (sortedPoints_perm.mem_iff.mp hi))
  refine ⟨found, { toSinkClustering := matching, firstRun := false }, ?_, hfound, hfirst⟩
  unfold run
  dsimp only
  rw [hruns.order_eq, hfind]
  rfl

/-- A run without a second solution stores nothing. -/
theorem not_found_of_lt {runs next : SinkRuns} {found : Bool} (hruns : Prepared sinks runs)
    (hpos : sinks.points ≠ []) (hsize : request.groupSize ≤ sinks.points.length)
    (hone : request.groupSize < 2) (h : sinks.run request runs = some (found, next)) :
    found = false := by
  obtain ⟨found', next', hrun, hfound, -⟩ := run_eq_some hruns hpos hsize
  obtain ⟨rfl, rfl⟩ := Prod.mk.inj (Option.some.inj (h.symm.trans hrun))
  cases found with
  | false => rfl
  | true =>
      obtain ⟨j, hj, hlt, -⟩ := hfound rfl
      omega

/-- A run is right exactly when there are no more solutions than points, and at least two in the first
run. -/
theorem runsRight_iff (hpos : sinks.points ≠ []) (request : SinkRequest)
    (requests : List SinkRequest) (runs : SinkRuns) (hruns : sinks.runAll requests = some runs) :
    RunsRight sinks request requests runs ↔
      request.groupSize ≤ sinks.points.length ∧ (requests = [] → 2 ≤ request.groupSize) := by
  have hprepared := runAll_prepared hruns
  constructor
  · rintro ⟨found, next, hrun, -, hfirst⟩
    have hsize : request.groupSize ≤ sinks.points.length := by
      by_contra hlt
      rw [run_eq_none hprepared hpos (Nat.lt_of_not_le hlt)] at hrun
      exact absurd hrun (Option.some_ne_none _).symm
    refine ⟨hsize, fun hnil => ?_⟩
    by_contra hone
    have hfound := not_found_of_lt hprepared hpos hsize (Nat.lt_of_not_le hone) hrun
    exact absurd (hfound.symm.trans (hfirst hnil)) Bool.false_ne_true
  · rintro ⟨hsize, htwo⟩
    obtain ⟨found, next, hrun, hfound, hfirst⟩ := run_eq_some hprepared hpos hsize
    refine ⟨found, next, hrun, fun h => ?_, fun hnil => ?_⟩
    · obtain ⟨j, hj, hlt, hbest⟩ := hfound h
      rw [hbest]
      refine ⟨?_, fun hcap => within_clusters hcap (by omega) _⟩
      rw [clusters_flatten]
      refine (List.perm_append_comm.trans ?_).trans sortedPoints_perm
      rw [List.take_append_drop]
    · apply hfirst (htwo hnil)
      subst hnil
      cases hruns
      rfl

/-- Sinks on a line. -/
def onLine (count : Nat) : Sinks Nat where
  points := List.range count
  pointsCap := List.replicate count 0
  computeTheta := fun p => p
  computeDist := fun p q => |(p : ℚ) - q|
  useMaxCapLimit := false
  maxCap := 0
  length_pointsCap := by rw [List.length_replicate, List.length_range]
  computeDist_comm := fun p q => abs_sub_comm _ _

/-- Eleven sinks, in groups of ten. -/
theorem runsRight_onLine :
    RunsRight (onLine 11) { groupSize := 10, maxInternalDiameter := 5, capPerUnit := 0 } []
      { thetaIndexVector := [] } :=
  (@runsRight_iff _ (onLine 11) (by decide) _ [] _ rfl).mpr ⟨by decide, fun _ => by decide⟩

/-- Eleven macros are enough to be clustered, in groups of twenty at the second of the sizes tried. -/
theorem not_runsRight : ¬ ∀ (sinks : Sinks Nat) (request : SinkRequest)
    (requests : List SinkRequest) (runs : SinkRuns), sinks.points ≠ [] → 1 ≤ request.groupSize →
      sinks.runAll requests = some runs → RunsRight sinks request requests runs := by
  intro hall
  obtain ⟨found, next, hrun, -⟩ := hall (onLine 11)
    { groupSize := 20, maxInternalDiameter := 5, capPerUnit := 0 } [] { thetaIndexVector := [] }
    (by decide) (by decide) rfl
  rw [run_eq_none (fun hfirst => absurd hfirst.symm Bool.false_ne_true) (by decide) (by decide)]
    at hrun
  exact absurd hrun (Option.some_ne_none _).symm

end Sinks

end OpenRoad.Cts
