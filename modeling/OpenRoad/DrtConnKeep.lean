import OpenRoad.DrtConnTree

/-!
What `finish` keeps: every node is at the places that are kept for it, every segment is a part of a
segment of the net, and shared places link all that is left. After the removal the nodes that are
left share the places of the search tree.
-/

namespace OpenRoad.Drt

namespace PathSeg

/-- The segment lies in another one. -/
def Inside (seg orig : PathSeg) : Prop :=
  seg.layerNum = orig.layerNum ∧
    orig.beginPoint.x ≤ seg.beginPoint.x ∧ orig.beginPoint.y ≤ seg.beginPoint.y ∧
    seg.endPoint.x ≤ orig.endPoint.x ∧ seg.endPoint.y ≤ orig.endPoint.y

theorem Inside.refl (seg : PathSeg) : seg.Inside seg := by
  unfold Inside
  omega

theorem Inside.trans {a b c : PathSeg} (hab : a.Inside b) (hbc : b.Inside c) : a.Inside c := by
  unfold Inside at *
  omega

/-- On a segment the order of the places is the one along it. -/
theorem Ordered.le_coords {seg : PathSeg} (h : seg.Ordered) {p q : Point3D} (hp : seg.Contains p)
    (hq : seg.Contains q) (hle : p.le q) : p.x ≤ q.x ∧ p.y ≤ q.y := by
  unfold Ordered at h
  unfold Contains at hp hq
  unfold Point3D.le at hle
  omega

/-- The two parts of a split segment. -/
def left (seg : PathSeg) (split : Point3D) : PathSeg :=
  { seg with endPoint := split.point, endTruncated := true }

def right (seg : PathSeg) (split : Point3D) : PathSeg :=
  { seg with beginPoint := split.point, beginTruncated := true }

section Split

variable {seg : PathSeg} (h : seg.Ordered) {split : Point3D} (hsplit : seg.Contains split)
include h hsplit

theorem left_ordered : (seg.left split).Ordered := by
  unfold Ordered Contains at *
  show (seg.beginPoint.x = split.x ∧ seg.beginPoint.y ≤ split.y) ∨
    (seg.beginPoint.y = split.y ∧ seg.beginPoint.x ≤ split.x)
  omega

theorem right_ordered : (seg.right split).Ordered := by
  unfold Ordered Contains at *
  show (split.x = seg.endPoint.x ∧ split.y ≤ seg.endPoint.y) ∨
    (split.y = seg.endPoint.y ∧ split.x ≤ seg.endPoint.x)
  omega

omit h in
theorem left_inside : (seg.left split).Inside seg := by
  obtain ⟨-, -, hx, -, hy⟩ := hsplit
  exact ⟨rfl, le_refl _, le_refl _, hx, hy⟩

omit h in
theorem right_inside : (seg.right split).Inside seg := by
  obtain ⟨-, hx, -, hy, -⟩ := hsplit
  exact ⟨rfl, hx, hy, le_refl _, le_refl _⟩

variable {pt : Point3D} (hpt : seg.Contains pt)
include hpt

/-- A place of the segment is on the part of its side. -/
theorem left_contains
    (hle : Conn.along (seg.beginPoint.y = seg.endPoint.y) pt ≤
      Conn.along (seg.beginPoint.y = seg.endPoint.y) split) : (seg.left split).Contains pt := by
  unfold Conn.along at hle
  unfold Ordered at h
  unfold Contains at *
  show pt.z = seg.layerNum ∧ seg.beginPoint.x ≤ pt.x ∧ pt.x ≤ split.x ∧
    seg.beginPoint.y ≤ pt.y ∧ pt.y ≤ split.y
  by_cases hhorz : seg.beginPoint.y = seg.endPoint.y
  · simp only [hhorz, decide_true, ↓reduceIte] at hle
    omega
  · simp only [hhorz, decide_false, Bool.false_eq_true, ↓reduceIte] at hle
    omega

theorem right_contains
    (hle : Conn.along (seg.beginPoint.y = seg.endPoint.y) split ≤
      Conn.along (seg.beginPoint.y = seg.endPoint.y) pt) : (seg.right split).Contains pt := by
  unfold Conn.along at hle
  unfold Ordered at h
  unfold Contains at *
  show pt.z = seg.layerNum ∧ split.x ≤ pt.x ∧ pt.x ≤ seg.endPoint.x ∧
    split.y ≤ pt.y ∧ pt.y ≤ seg.endPoint.y
  by_cases hhorz : seg.beginPoint.y = seg.endPoint.y
  · simp only [hhorz, decide_true, ↓reduceIte] at hle
    omega
  · simp only [hhorz, decide_false, Bool.false_eq_true, ↓reduceIte] at hle
    omega

end Split

end PathSeg

namespace Conn

open Relation PathSeg

variable {net : NetRouteObjs} {pins : Pin2EpMap}

/-! ### The removal -/

theorem mem_foldl_erase {places : List Point3D} {map : NodeMap} {idx i : Nat} {pt : Point3D} :
    i ∈ (places.foldl (fun map pt => map.erase pt idx) map).indices pt ↔
      i ∈ map.indices pt ∧ ¬(i = idx ∧ pt ∈ places) := by
  induction places generalizing map with
  | nil => simp
  | cons q places ih =>
      rw [List.foldl_cons, ih, NodeMap.mem_erase, List.mem_cons]
      tauto

/-- With all pins on paths the removal succeeds. -/
theorem deleteRedundant_all {gCnt : Nat} {visited : Nat → Bool} (places : Nat → List Point3D)
    {idxs : List Nat} (hpin : ∀ i ∈ idxs, gCnt ≤ i → visited i = true) (s : Finish) :
    ∃ s', idxs.foldlM (deleteRedundant gCnt visited places) s = some s' ∧ s'.added = s.added ∧
      (∀ i, s'.objs i = if i ∈ idxs ∧ visited i = false then none else s.objs i) ∧
      ∀ i pt, i ∈ s'.nodeMap.indices pt ↔
        i ∈ s.nodeMap.indices pt ∧ ¬(i ∈ idxs ∧ visited i = false ∧ pt ∈ places i) := by
  induction idxs generalizing s with
  | nil => exact ⟨s, rfl, rfl, fun i => by simp, fun i pt => by simp⟩
  | cons idx idxs ih =>
      have hrest : ∀ i ∈ idxs, gCnt ≤ i → visited i = true := fun i hi =>
        hpin i (List.mem_cons_of_mem _ hi)
      cases hvisited : visited idx with
      | true =>
          obtain ⟨s', hrun, hadded, hobjs, hmap⟩ := ih hrest s
          have hskip : ∀ i, (i ∈ idx :: idxs ∧ visited i = false) ↔
              i ∈ idxs ∧ visited i = false := by
            intro i
            rw [List.mem_cons]
            constructor
            · rintro ⟨rfl | hi, hoff⟩
              · rw [hvisited] at hoff
                cases hoff
              · exact ⟨hi, hoff⟩
            · exact fun h => ⟨Or.inr h.1, h.2⟩
          refine ⟨s', ?_, hadded, fun i => ?_, fun i pt => ?_⟩
          · rw [List.foldlM_cons, deleteRedundant, hvisited, if_pos rfl]
            exact hrun
          · rw [hobjs]
            simp only [hskip]
          · rw [hmap, ← and_assoc, ← and_assoc, hskip]
      | false =>
          have hlt : idx < gCnt := by
            by_contra hle
            have hon := hpin idx List.mem_cons_self (by omega)
            rw [hvisited] at hon
            cases hon
          obtain ⟨s', hrun, hadded, hobjs, hmap⟩ := ih hrest { s with
            nodeMap := (places idx).foldl (fun map pt => map.erase pt idx) s.nodeMap
            objs := Function.update s.objs idx none }
          refine ⟨s', ?_, hadded, fun i => (hobjs i).trans ?_, fun i pt => ?_⟩
          · rw [List.foldlM_cons, deleteRedundant, hvisited, if_neg Bool.false_ne_true, if_pos hlt]
            exact hrun
          · dsimp only
            by_cases heq : i = idx
            · subst heq
              rw [Function.update_self, ite_self, if_pos ⟨List.mem_cons_self, hvisited⟩]
            · simp only [List.mem_cons, heq, false_or, Function.update_of_ne heq]
          · rw [hmap, mem_foldl_erase, List.mem_cons]
            by_cases heq : i = idx
            · subst heq
              simp only [hvisited]
              tauto
            · simp only [heq, false_or, false_and, not_false_eq_true, and_true]

/-! ### The places that nodes share -/

/-- The place is kept for the node. -/
def At (reverseNodeMap : Nat → Option (List Point3D)) (i : Nat) (pt : Point3D) : Prop :=
  ∃ places, reverseNodeMap i = some places ∧ pt ∈ places

/-- Two nodes share a place that is kept for both. -/
def Shares (reverseNodeMap : Nat → Option (List Point3D)) (i j : Nat) : Prop :=
  ∃ pt, At reverseNodeMap i pt ∧ At reverseNodeMap j pt

theorem Shares.symm {rev : Nat → Option (List Point3D)} {i j : Nat} (h : Shares rev i j) :
    Shares rev j i := by
  obtain ⟨pt, hi, hj⟩ := h
  exact ⟨pt, hj, hi⟩

theorem sharedPlaces_at {map : NodeMap} {i : Nat} {pt : Point3D} :
    At (sharedPlaces map) i pt ↔ (map.indices pt).length ≠ 1 ∧ i ∈ map.indices pt := by
  have hmem : pt ∈ map.keys.filter (fun pt => (map.indices pt).length ≠ 1 && i ∈ map.indices pt) ↔
      (map.indices pt).length ≠ 1 ∧ i ∈ map.indices pt := by
    rw [List.mem_filter, Bool.and_eq_true, decide_eq_true_eq, decide_eq_true_eq]
    exact ⟨fun h => h.2, fun h => ⟨NodeMap.mem_keys h.2, h⟩⟩
  unfold At sharedPlaces
  rw [← hmem]
  generalize map.keys.filter _ = places
  cases places with
  | nil => simp
  | cons q places => simp

theorem sharedPlaces_ne_nil {map : NodeMap} {i : Nat} {places : List Point3D}
    (h : sharedPlaces map i = some places) : places ≠ [] := by
  unfold sharedPlaces at h
  split at h
  · cases h
  · rename_i hne
    rw [← Option.some.inj h]
    exact hne

/-- Two nodes of a place share it. -/
theorem shared_of_ne {map : NodeMap} {i j : Nat} {pt : Point3D} (hne : i ≠ j)
    (hi : i ∈ map.indices pt) (hj : j ∈ map.indices pt) :
    At (sharedPlaces map) i pt ∧ At (sharedPlaces map) j pt := by
  have hlength : (map.indices pt).length ≠ 1 := by
    intro hone
    obtain ⟨k, hk⟩ := List.length_eq_one_iff.mp hone
    rw [hk, List.mem_singleton] at hi hj
    exact hne (hi.trans hj.symm)
  exact ⟨sharedPlaces_at.mpr ⟨hlength, hi⟩, sharedPlaces_at.mpr ⟨hlength, hj⟩⟩

/-- What holds between the steps of `finish`: a node is at places that are kept for it, a segment is
a part of a segment of the net, and shared places link all that is left. -/
structure Keeps (net : NetRouteObjs) (pins : Pin2EpMap) (visited : Nat → Bool) (s : Finish) :
    Prop where
  belongs : ∀ i pt, At s.reverseNodeMap i pt → Belongs net pins s.objs i pt
  piece : ∀ i seg, s.objs i = some (.pathSeg seg) →
    seg.Ordered ∧ ∃ orig, .pathSeg orig ∈ net.objs ∧ seg.Inside orig
  pin : ∀ k < pins.entries.length, s.objs (net.objs.length + k) = none
  fresh : ∀ i, net.objs.length + pins.entries.length + s.added ≤ i →
    s.objs i = none ∧ s.reverseNodeMap i = none
  nonempty : ∀ i places, s.reverseNodeMap i = some places → places ≠ []
  kept : ∀ i < net.objs.length, visited i = true → ∃ obj, s.objs i = some obj
  linked : Linked (Member net pins s.objs) (Shares s.reverseNodeMap)

theorem Keeps.contains {visited : Nat → Bool} {s : Finish} (h : Keeps net pins visited s) {i : Nat}
    {seg : PathSeg} (hseg : s.objs i = some (.pathSeg seg)) {pt : Point3D}
    (hat : At s.reverseNodeMap i pt) : seg.Contains pt := by
  rcases h.belongs i pt hat with ⟨obj, hobj, hpt⟩ | ⟨k, entry, rfl, hentry, -⟩
  · rw [hseg] at hobj
    rw [← Option.some.inj hobj] at hpt
    exact hpt
  · rw [h.pin k (List.getElem?_eq_some_iff.mp hentry).1] at hseg
    cases hseg

/-- What the removal leaves: the objects on paths, at all their places. -/
structure Removed (net : NetRouteObjs) (pins : Pin2EpMap) (p : TreeSearch.Paths) (s : Finish) :
    Prop where
  live : ∀ i, p.visited i = true → s.objs i = net.objs[i]?
  onPath : ∀ i obj, s.objs i = some obj → p.visited i = true ∧ net.objs[i]? = some obj
  place : ∀ i pt, i ∈ s.nodeMap.indices pt ↔
    i ∈ (buildNodeMap net.objs pins).indices pt ∧ p.visited i = true

theorem Found.visited_pin {p : TreeSearch.Paths} (h : Found net pins p) {i : Nat}
    (hle : net.objs.length ≤ i) (hlt : i < net.objs.length + pins.entries.length) :
    p.visited i = true := by
  have hpin := h.pin (i - net.objs.length) (by omega)
  rw [Nat.add_sub_of_le hle] at hpin
  rw [h.visited]
  exact hpin

theorem deleteRedundant_removed {p : TreeSearch.Paths} (h : Found net pins p) :
    ∃ s, (List.range (net.objs.length + pins.entries.length)).foldlM
        (deleteRedundant net.objs.length p.visited (placesOf (buildNodeMap net.objs pins)))
        ⟨fun idx => net.objs[idx]?, buildNodeMap net.objs pins, fun _ => none, 0⟩ = some s ∧
      Removed net pins p s := by
  obtain ⟨s, hrun, -, hobjs, hmap⟩ := deleteRedundant_all
    (placesOf (buildNodeMap net.objs pins))
    (fun i hi hle => h.visited_pin hle (List.mem_range.mp hi))
    ⟨fun idx => net.objs[idx]?, buildNodeMap net.objs pins, fun _ => none, 0⟩
  refine ⟨s, hrun, fun i hi => ?_, fun i obj hobj => ?_, fun i pt => ?_⟩
  · rw [hobjs i, if_neg]
    rw [hi]
    exact fun hoff => Bool.false_ne_true hoff.2.symm
  · rw [hobjs i] at hobj
    split at hobj
    · cases hobj
    · rename_i hon
      refine ⟨?_, hobj⟩
      have hlt := (List.getElem?_eq_some_iff.mp hobj).1
      rw [List.mem_range] at hon
      by_contra hoff
      exact hon ⟨by omega, Bool.eq_false_iff.mpr hoff⟩
  · rw [hmap i pt]
    refine and_congr_right fun hi => ?_
    have hlt := (buildNodeMap_belongs hi).lt
    have hmem : pt ∈ placesOf (buildNodeMap net.objs pins) i :=
      List.mem_filter.mpr ⟨NodeMap.mem_keys hi, decide_eq_true hi⟩
    rw [← Bool.not_eq_false]
    exact not_congr ⟨fun h => h.2.1, fun h => ⟨List.mem_range.mpr hlt, h, hmem⟩⟩

namespace Removed

variable {p : TreeSearch.Paths} {s : Finish}

theorem exists_obj (h : Removed net pins p s) {i : Nat} (hi : p.visited i = true)
    (hlt : i < net.objs.length) : ∃ obj, s.objs i = some obj := by
  rw [h.live i hi]
  exact ⟨net.objs[i], List.getElem?_eq_getElem hlt⟩

theorem none_of_le (h : Removed net pins p s) {i : Nat} (hle : net.objs.length ≤ i) :
    s.objs i = none := by
  cases hobj : s.objs i with
  | none => rfl
  | some obj =>
      have hlt := (List.getElem?_eq_some_iff.mp (h.onPath i obj hobj).2).1
      omega

theorem member_iff (h : Removed net pins p s) (hfound : Found net pins p) (i : Nat) :
    Member net pins s.objs i ↔ p.visited i = true := by
  constructor
  · rintro (⟨obj, hobj⟩ | ⟨hle, hlt⟩)
    · exact (h.onPath i obj hobj).1
    · exact hfound.visited_pin hle hlt
  · intro hi
    rcases Nat.lt_or_ge i net.objs.length with hobj | hpin
    · exact Or.inl (h.exists_obj hi hobj)
    · refine Or.inr ⟨hpin, hfound.lt i ?_⟩
      rw [← hfound.visited]
      exact hi

/-- A chain of the search tree shares its places. -/
theorem linked (h : Removed net pins p s) (hfound : Found net pins p) :
    Linked (Member net pins s.objs) (Shares (sharedPlaces s.nodeMap)) := by
  suffices hroot : ∀ a, Member net pins s.objs a → ReflTransGen (Within (Member net pins s.objs)
      (Shares (sharedPlaces s.nodeMap))) net.objs.length a from
    Linked.of_root (fun _ _ => Shares.symm) hroot
  intro a ha
  have hon := (h.member_iff hfound a).mp ha
  rw [hfound.visited] at hon
  have hchain := hfound.step a hon
  clear ha hon
  induction hchain with
  | refl => exact ReflTransGen.refl
  | @tail b c _ hstep ih =>
      obtain ⟨hb, hc, pt, hbpt, hcpt⟩ := hstep
      rw [← hfound.visited] at hb hc
      by_cases heq : b = c
      · rw [← heq]
        exact ih
      · have hshared := shared_of_ne heq ((h.place b pt).mpr ⟨hbpt, hb⟩)
          ((h.place c pt).mpr ⟨hcpt, hc⟩)
        exact ih.tail ⟨(h.member_iff hfound b).mpr hb, (h.member_iff hfound c).mpr hc, pt, hshared⟩

theorem keeps (h : Removed net pins p s) (hfound : Found net pins p) :
    Keeps net pins p.visited { s with reverseNodeMap := sharedPlaces s.nodeMap } where
  belongs := by
    intro i pt hat
    obtain ⟨hi, hon⟩ := (h.place i pt).mp (sharedPlaces_at.mp hat).2
    refine (buildNodeMap_belongs hi).imp (fun hobj => ?_) id
    obtain ⟨obj, hobj, hpt⟩ := hobj
    exact ⟨obj, (h.live i hon).trans hobj, hpt⟩
  piece := by
    intro i seg hseg
    have hmem := List.mem_of_getElem? (h.onPath i _ hseg).2
    exact ⟨net.ordered seg hmem, seg, hmem, Inside.refl seg⟩
  pin := fun k _ => h.none_of_le (Nat.le_add_right _ k)
  fresh := by
    intro i hi
    have hle : net.objs.length + pins.entries.length ≤ i := le_trans (Nat.le_add_right _ _) hi
    refine ⟨h.none_of_le (le_trans (Nat.le_add_right _ _) hle), ?_⟩
    show sharedPlaces s.nodeMap i = none
    cases hrev : sharedPlaces s.nodeMap i with
    | none => rfl
    | some places =>
        obtain ⟨pt, hpt⟩ := List.exists_mem_of_ne_nil places (sharedPlaces_ne_nil hrev)
        have hi' := (h.place i pt).mp (sharedPlaces_at.mp ⟨places, hrev, hpt⟩).2
        have hlt := (buildNodeMap_belongs hi'.1).lt
        omega
  nonempty := fun _ _ => sharedPlaces_ne_nil
  kept := fun _ hlt hi => h.exists_obj hi hlt
  linked := h.linked hfound

end Removed

end Conn

end OpenRoad.Drt
