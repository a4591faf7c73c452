import OpenRoad.DrtConnGraph
import OpenRoad.Linked

/-!
The node map of a net has a node only at places that belong to it, so the edges of the search join
nodes that touch, and a successful search puts all pins on one tree of touching nodes.
-/

namespace OpenRoad.Drt.Conn

open Relation

variable (net : NetRouteObjs) (pins : Pin2EpMap)

/-- The place belongs to a node: to its object, or to its pin. -/
def Belongs (objs : Nat → Option RouteObj) (i : Nat) (pt : Point3D) : Prop :=
  (∃ obj, objs i = some obj ∧ obj.Contains pt) ∨
    ∃ k entry, i = net.objs.length + k ∧ pins.entries[k]? = some entry ∧ pt ∈ entry.2

/-- The nodes of the net: the objects that are there, and the pins. -/
def Member (objs : Nat → Option RouteObj) (i : Nat) : Prop :=
  (∃ obj, objs i = some obj) ∨
    (net.objs.length ≤ i ∧ i < net.objs.length + pins.entries.length)

/-- Two nodes share a place. -/
def Touch (objs : Nat → Option RouteObj) (i j : Nat) : Prop :=
  ∃ pt, Belongs net pins objs i pt ∧ Belongs net pins objs j pt

variable {net pins}

theorem Belongs.lt {i : Nat} {pt : Point3D} (h : Belongs net pins (fun i => net.objs[i]?) i pt) :
    i < net.objs.length + pins.entries.length := by
  rcases h with ⟨obj, hobj, -⟩ | ⟨k, entry, rfl, hentry, -⟩
  · have := (List.getElem?_eq_some_iff.mp hobj).1
    omega
  · have := (List.getElem?_eq_some_iff.mp hentry).1
    omega

theorem objEnds_contains {obj : RouteObj} (h : ∀ seg, obj = .pathSeg seg → seg.Ordered)
    {pt : Point3D} (hpt : pt ∈ objEnds obj) : obj.Contains pt := by
  cases obj with
  | via v =>
      rcases List.mem_cons.mp hpt with rfl | hpt
      · exact Or.inl rfl
      · exact Or.inr (List.mem_singleton.mp hpt)
  | pathSeg seg =>
      have hordered := h seg rfl
      unfold PathSeg.Ordered at hordered
      rcases List.mem_cons.mp hpt with rfl | hpt
      · refine ⟨rfl, ?_⟩
        show seg.beginPoint.x ≤ seg.beginPoint.x ∧ seg.beginPoint.x ≤ seg.endPoint.x ∧
          seg.beginPoint.y ≤ seg.beginPoint.y ∧ seg.beginPoint.y ≤ seg.endPoint.y
        omega
      · obtain rfl := List.mem_singleton.mp hpt
        refine ⟨rfl, ?_⟩
        show seg.beginPoint.x ≤ seg.endPoint.x ∧ seg.endPoint.x ≤ seg.endPoint.x ∧
          seg.beginPoint.y ≤ seg.endPoint.y ∧ seg.endPoint.y ≤ seg.endPoint.y
        omega

theorem lowerBound_mem {splitCoord : Int} {entries : List (Int × Int × Nat)}
    {entry : Int × Int × Nat} (h : lowerBound splitCoord entries = some entry) :
    entry ∈ entries := by
  unfold lowerBound at h
  generalize hstep : (fun (found : Option (Int × Int × Nat)) (entry : Int × Int × Nat) => _) = step at h
  have hgeneral : ∀ (rest seen : List (Int × Int × Nat)) (found : Option (Int × Int × Nat)),
      (∀ e, found = some e → e ∈ seen) → rest.foldl step found = some entry →
      entry ∈ seen ++ rest := by
    intro rest
    induction rest with
    | nil =>
        intro seen found hfound hrun
        rw [List.append_nil]
        exact hfound entry hrun
    | cons next rest ih =>
        intro seen found hfound hrun
        rw [List.foldl_cons] at hrun
        rw [List.append_cons]
        refine ih (seen ++ [next]) _ (fun e he => ?_) hrun
        have hkeep : ∀ e, found = some e → e ∈ seen ++ [next] := fun e he =>
          List.mem_append_left _ (hfound e he)
        have hnext : ∀ e, some next = some e → e ∈ seen ++ [next] := fun e he =>
          Option.some.inj he ▸ List.mem_append_right _ List.mem_cons_self
        rw [← hstep] at he
        dsimp only at he
        split at he
        · exact hkeep e he
        · split at he
          · exact hnext e he
          · split at he
            · exact hnext e he
            · exact hkeep e he
  simpa using hgeneral entries [] none (fun e he => by cases he) h

/-- A segment that the helper finds holds the place in its inside. -/
theorem mergeHelper_contains {vertical : Bool} {pt : Point3D} {endP beginP : Int} {i : Nat}
    (h : (endP, beginP, i) ∈ mergeHelper net.objs vertical pt.z (trackCoord vertical pt))
    (hinside : beginP < splitCoord vertical pt ∧ splitCoord vertical pt < endP) :
    ∃ obj, net.objs[i]? = some obj ∧ obj.Contains pt := by
  obtain ⟨⟨obj, j⟩, hmem, hfound⟩ := List.mem_filterMap.mp h
  cases obj with
  | via v => cases hfound
  | pathSeg seg =>
      simp only [Option.ite_none_right_eq_some, Option.some.injEq, Prod.mk.injEq] at hfound
      obtain ⟨⟨hvertical, hlayer, htrack⟩, hhigh, hlow, rfl⟩ := hfound
      have hget := List.mem_zipIdx_iff_getElem?.mp hmem
      have hordered := net.ordered seg (List.mem_of_getElem? hget)
      refine ⟨_, hget, hlayer.symm, ?_⟩
      unfold PathSeg.track trackCoord at htrack
      unfold splitCoord at hinside
      rw [← hhigh, ← hlow, ← hvertical] at hinside
      unfold PathSeg.low PathSeg.high at hinside
      unfold PathSeg.Ordered at hordered
      cases hv : seg.isVertical with
      | true =>
          have hx : seg.beginPoint.x = seg.endPoint.x := of_decide_eq_true hv
          simp only [← hvertical, hv, ↓reduceIte] at htrack hinside
          omega
      | false =>
          have hx : seg.beginPoint.x ≠ seg.endPoint.x := of_decide_eq_false hv
          simp only [← hvertical, hv, Bool.false_eq_true, ↓reduceIte] at htrack hinside
          omega

/-- A node of the map is at places that belong to it. -/
theorem buildNodeMap_belongs {i : Nat} {pt : Point3D}
    (h : i ∈ (buildNodeMap net.objs pins).indices pt) :
    Belongs net pins (fun i => net.objs[i]?) i pt := by
  unfold buildNodeMap nodeMapPin at h
  rcases (mem_insertPins Prod.snd).mp h with h | ⟨pin, hpin, rfl, hpt⟩
  · left
    unfold nodeMapRouteObjSplit at h
    generalize net.objs.flatMap crossings = crosses at h
    have hends : ∀ i pt, i ∈ (nodeMapRouteObjEnd net.objs NodeMap.empty).indices pt →
        ∃ obj, net.objs[i]? = some obj ∧ obj.Contains pt := by
      intro i pt hi
      unfold nodeMapRouteObjEnd at hi
      rcases (mem_insertPins objEnds).mp hi with hi | ⟨⟨obj, j⟩, hobj, rfl, hpt⟩
      · rw [NodeMap.mem_empty] at hi
        exact hi.elim
      · have hget := List.mem_zipIdx_iff_getElem?.mp hobj
        refine ⟨obj, hget, objEnds_contains (fun seg hseg => ?_) hpt⟩
        exact net.ordered seg (hseg ▸ List.mem_of_getElem? hget)
    generalize nodeMapRouteObjEnd net.objs NodeMap.empty = map at h hends
    induction crosses generalizing map with
    | nil => exact hends i pt h
    | cons cross crosses ih =>
        rw [List.foldl_cons] at h
        refine ih _ h fun j q hj => ?_
        unfold nodeMapRouteObjSplitHelper at hj
        split at hj
        · exact hends j q hj
        rename_i endP beginP objIdx hfound
        split at hj
        · rename_i hinside
          rw [Bool.and_eq_true, decide_eq_true_eq, decide_eq_true_eq] at hinside
          rcases (NodeMap.mem_insert ..).mp hj with ⟨rfl, rfl⟩ | hj
          · exact mergeHelper_contains (lowerBound_mem hfound) hinside
          · exact hends j q hj
        · exact hends j q hj
  · right
    obtain ⟨hle, hentry⟩ := List.mem_zipIdx_iff_le_and_getElem?_sub.mp hpin
    exact ⟨pin.2 - net.objs.length, pin.1, by omega, hentry, hpt⟩

theorem placeEdges_place {objs : List RouteObj} {pt : Point3D} {nodes : List Nat}
    {edge : Nat × Nat} (h : edge ∈ placeEdges objs pt nodes) :
    edge.1 ∈ nodes ∧ edge.2 ∈ nodes := by
  induction nodes with
  | nil => cases h
  | cons idx rest ih =>
      rcases List.mem_append.mp h with h | h
      · obtain ⟨other, hother, hedge⟩ := List.mem_flatMap.mp h
        have hmem := List.mem_cons_of_mem idx (List.mem_of_mem_filter hother)
        rcases List.mem_cons.mp hedge with rfl | hedge
        · exact ⟨List.mem_cons_self, hmem⟩
        · rw [List.mem_singleton.mp hedge]
          exact ⟨hmem, List.mem_cons_self⟩
      · exact ⟨List.mem_cons_of_mem _ (ih h).1, List.mem_cons_of_mem _ (ih h).2⟩

/-- An edge joins two nodes at one place. -/
theorem adjVec_place {objs : List RouteObj} {map : NodeMap} {i j : Nat}
    (h : j ∈ adjVec objs map i) : ∃ pt, i ∈ map.indices pt ∧ j ∈ map.indices pt := by
  obtain ⟨edge, hedge, hends⟩ := List.mem_filterMap.mp h
  obtain ⟨pt, -, hplace⟩ := List.mem_flatMap.mp hedge
  split at hends
  · rename_i hfirst
    have hboth := placeEdges_place hplace
    rw [hfirst, Option.some.inj hends] at hboth
    exact ⟨pt, hboth⟩
  · cases hends

variable {Q : TopQueue Wavefront.less}

/-- With a node on a path the root is on it. -/
theorem root_onPath {G : TreeSearch} {p : TreeSearch.Paths} (h : G.Tree p) {i : Nat}
    (hi : p.isOnPath i = true) : p.isOnPath G.root = true := by
  rcases ReflTransGen.cases_head (h.chain i hi) with heq | ⟨a, hstep, -⟩
  · rw [heq]
    exact hi
  · exact hstep.1

theorem rounds_tree {objs : List RouteObj} {map : NodeMap} {nNetObjs fuel : Nat} (count : Nat)
    {first : Bool} {p p' : TreeSearch.Paths} (h : (graph objs map nNetObjs).Tree p)
    (hfirst : first = true → ∀ i, p.isOnPath i = false)
    (hrun : rounds objs Q fuel map nNetObjs count first p = some p') :
    (graph objs map nNetObjs).Tree p' := by
  induction count generalizing first p with
  | zero =>
      cases hrun
      exact h
  | succ count ih =>
      unfold rounds at hrun
      cases honce : (graph objs map nNetObjs).searchOnce Q fuel p
          (initialQueue objs nNetObjs first p) with
      | none =>
          rw [honce] at hrun
          cases hrun
      | some p₁ =>
          rw [honce] at hrun
          refine ih (h.searchOnce ?_ honce) (fun hfalse => by cases hfalse) hrun
          cases first with
          | true =>
              refine ⟨fun w hw => Or.inr ?_, Or.inr fun w hw => ?_⟩
              · rw [List.mem_singleton.mp hw]
                exact ⟨hfirst rfl _, rfl, rfl⟩
              · rw [List.mem_singleton.mp hw]
                rfl
          | false =>
              have hcomes : ∀ w ∈ initialQueue objs nNetObjs false p,
                  p.isOnPath w.nodeIdx = true ∧ w.prevIdx = p.prevIdx w.nodeIdx := by
                intro w hw
                obtain ⟨i, hi, rfl⟩ := List.mem_map.mp hw
                exact ⟨(List.mem_filter.mp hi).2, rfl⟩
              refine ⟨fun w hw => Or.inl (hcomes w hw), ?_⟩
              by_cases hroot : p.isOnPath (graph objs map nNetObjs).root = true
              · exact Or.inl hroot
              · exact Or.inr fun w hw => absurd (root_onPath h (hcomes w hw).1) hroot

/-- A successful search: a tree of touching nodes with all pins on it. -/
structure Found (net : NetRouteObjs) (pins : Pin2EpMap) (p : TreeSearch.Paths) : Prop where
  visited : p.visited = p.isOnPath
  pin : ∀ k < pins.entries.length, p.isOnPath (net.objs.length + k) = true
  step : ∀ i, p.isOnPath i = true → ReflTransGen (fun a b => p.isOnPath a = true ∧
    p.isOnPath b = true ∧ ∃ pt, a ∈ (buildNodeMap net.objs pins).indices pt ∧
      b ∈ (buildNodeMap net.objs pins).indices pt) net.objs.length i
  lt : ∀ i, p.isOnPath i = true → i < net.objs.length + pins.entries.length

theorem astar_found {fuel : Nat} {p : TreeSearch.Paths}
    (hrun : astar net.objs Q fuel (buildNodeMap net.objs pins)
      (net.objs.length + pins.entries.length) = some (true, p)) : Found net pins p := by
  unfold astar at hrun
  cases hrounds : rounds net.objs Q fuel (buildNodeMap net.objs pins)
      (net.objs.length + pins.entries.length)
      (net.objs.length + pins.entries.length - 1 - net.objs.length) true
      ⟨fun _ => false, fun _ => false, fun _ => none⟩ with
  | none =>
      rw [hrounds] at hrun
      cases hrun
  | some p₁ =>
      rw [hrounds] at hrun
      obtain ⟨hall, rfl⟩ := Prod.mk.inj (Option.some.inj hrun)
      have htree := rounds_tree _ TreeSearch.tree_empty (fun _ _ => rfl) hrounds
      have hpins : ∀ k < pins.entries.length, p₁.isOnPath (net.objs.length + k) = true := by
        intro k hk
        have hlength := of_decide_eq_true hall
        rw [Nat.add_sub_cancel_left] at hlength
        have hfilter := List.length_filter_eq_length_iff.mp
          (hlength.trans (List.length_range (n := pins.entries.length)).symm)
        have hvisited := hfilter k (List.mem_range.mpr hk)
        rwa [htree.visited] at hvisited
      have hnone : pins.entries.length = 0 → ∀ i, p₁.isOnPath i = false := by
        intro hzero i
        rw [hzero, Nat.add_zero, show net.objs.length - 1 - net.objs.length = 0 by omega] at hrounds
        cases hrounds
        rfl
      refine ⟨htree.visited, hpins, fun i hi => ?_, fun i hi => ?_⟩
      · refine ReflTransGen.mono (fun a b hstep => ?_) _ _ (htree.chain i hi)
        exact ⟨hstep.1, hstep.2.1, adjVec_place hstep.2.2.2⟩
      · rcases ReflTransGen.cases_tail (htree.chain i hi) with heq | ⟨a, -, hstep⟩
        · rw [heq]
          show net.objs.length < _
          by_contra hle
          have hoff := hnone (by omega) i
          rw [hi] at hoff
          cases hoff
        · obtain ⟨pt, -, hmem⟩ := adjVec_place hstep.2.2.2
          exact (buildNodeMap_belongs hmem).lt

end OpenRoad.Drt.Conn
