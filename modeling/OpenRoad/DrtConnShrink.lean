import OpenRoad.DrtConnSplit

/-!
The last loop of `finish` and what all of it leaves: a net whose remaining objects and pins are
linked by the places they share.
-/

namespace OpenRoad.Drt.Conn

open Relation PathSeg

variable {net : NetRouteObjs} {pins : Pin2EpMap}

theorem extreme_spec {r : Point3D → Point3D → Prop} [DecidableRel r] [Std.Total r]
    [IsTrans Point3D r] (first : Point3D) (rest : List Point3D) :
    extreme r first rest ∈ first :: rest ∧ ∀ q ∈ first :: rest, r (extreme r first rest) q := by
  have hrefl : ∀ p : Point3D, r p p := fun p => (Std.Total.total p p).elim id id
  induction rest generalizing first with
  | nil => exact ⟨List.mem_cons_self, fun q hq => List.mem_singleton.mp hq ▸ hrefl _⟩
  | cons pt rest ih =>
      have hstep : extreme r first (pt :: rest) =
          extreme r (if r first pt then first else pt) rest := rfl
      obtain ⟨hmem, hall⟩ := ih (if r first pt then first else pt)
      have hbest := hall _ List.mem_cons_self
      rw [hstep]
      generalize extreme r (if r first pt then first else pt) rest = best at hmem hall hbest
      constructor
      · rcases List.mem_cons.mp hmem with heq | hmem
        · rw [heq]
          split
          · exact List.mem_cons_self
          · exact List.mem_cons_of_mem _ List.mem_cons_self
        · exact List.mem_cons_of_mem _ (List.mem_cons_of_mem _ hmem)
      · have hboth : r best first ∧ r best pt := by
          split at hbest
          · rename_i hle
            exact ⟨hbest, trans_of r hbest hle⟩
          · rename_i hle
            exact ⟨trans_of r hbest ((Std.Total.total first pt).resolve_left hle), hbest⟩
        intro q hq
        rcases List.mem_cons.mp hq with rfl | hq
        · exact hboth.1
        rcases List.mem_cons.mp hq with rfl | hq
        · exact hboth.2
        · exact hall q (List.mem_cons_of_mem _ hq)

instance : Std.Total (fun p q : Point3D => q.le p) := ⟨fun p q => Std.Total.total q p⟩

instance : IsTrans Point3D (fun p q : Point3D => q.le p) := ⟨fun _ _ _ hpq hqr => trans_of _ hqr hpq⟩

/-- The hull lies in the segment and has all the places. -/
theorem shrinkSegment_spec {seg : PathSeg} (first : Point3D) (rest : List Point3D)
    (h : seg.Ordered) (hplaces : ∀ pt ∈ first :: rest, seg.Contains pt) :
    (shrinkSegment seg first rest).Ordered ∧ (shrinkSegment seg first rest).Inside seg ∧
      ∀ pt ∈ first :: rest, (shrinkSegment seg first rest).Contains pt := by
  obtain ⟨hminMem, hmin⟩ := extreme_spec (r := Point3D.le) first rest
  obtain ⟨hmaxMem, hmax⟩ := extreme_spec (r := fun p q => Point3D.le q p) first rest
  unfold shrinkSegment
  generalize extreme Point3D.le first rest = low at hminMem hmin
  generalize extreme (fun p q => Point3D.le q p) first rest = high at hmaxMem hmax
  dsimp only
  split
  · have hlow := hplaces low hminMem
    have hhigh := hplaces high hmaxMem
    have hle := h.le_coords hlow hhigh (hmin high hmaxMem)
    refine ⟨?_, ?_, fun pt hpt => ?_⟩
    · unfold Ordered Contains at *
      show (low.x = high.x ∧ low.y ≤ high.y) ∨ (low.y = high.y ∧ low.x ≤ high.x)
      omega
    · exact ⟨rfl, hlow.2.1, hlow.2.2.2.1, hhigh.2.2.1, hhigh.2.2.2.2⟩
    · have hpt' := hplaces pt hpt
      have hbelow := h.le_coords hlow hpt' (hmin pt hpt)
      have habove := h.le_coords hpt' hhigh (hmax pt hpt)
      exact ⟨hpt'.1, hbelow.1, habove.1, hbelow.2, habove.2⟩
  · exact ⟨h, Inside.refl seg, hplaces⟩

/-- A segment may be replaced by one that has its places. -/
theorem Keeps.replace {visited : Nat → Bool} {s : Finish} (h : Keeps net pins visited s) {idx : Nat}
    {seg hull : PathSeg} (hseg : s.objs idx = some (.pathSeg seg)) (hordered : hull.Ordered)
    (hinside : hull.Inside seg) (hplaces : ∀ pt, At s.reverseNodeMap idx pt → hull.Contains pt) :
    Keeps net pins visited { s with objs := Function.update s.objs idx (some (.pathSeg hull)) } := by
  have hother : ∀ i, i ≠ idx → Function.update s.objs idx (some (.pathSeg hull)) i = s.objs i :=
    fun i hi => Function.update_of_ne hi ..
  have hself : Function.update s.objs idx (some (.pathSeg hull)) idx = some (.pathSeg hull) :=
    Function.update_self ..
  refine ⟨fun i pt hat => ?_, fun i part hpart => ?_, fun k hk => ?_, fun i hi => ?_, h.nonempty,
    fun i hlt hi => ?_, ?_⟩
  · dsimp only
    by_cases heq : i = idx
    · subst heq
      exact Or.inl ⟨_, hself, hplaces pt hat⟩
    · unfold Belongs
      rw [hother i heq]
      exact h.belongs i pt hat
  · dsimp only at hpart
    by_cases heq : i = idx
    · rw [heq, hself] at hpart
      cases hpart
      obtain ⟨-, orig, horig, hseg'⟩ := h.piece idx seg hseg
      exact ⟨hordered, orig, horig, hinside.trans hseg'⟩
    · rw [hother i heq] at hpart
      exact h.piece i part hpart
  · dsimp only
    rw [hother _ fun heq => ?_]
    · exact h.pin k hk
    · have hnone := h.pin k hk
      rw [heq, hseg] at hnone
      cases hnone
  · dsimp only
    rw [hother _ fun heq => ?_]
    · exact h.fresh i hi
    · have hnone := (h.fresh i hi).1
      rw [heq, hseg] at hnone
      cases hnone
  · dsimp only
    by_cases heq : i = idx
    · rw [heq]
      exact ⟨_, hself⟩
    · rw [hother i heq]
      exact h.kept i hlt hi
  · have hmember : Member net pins (Function.update s.objs idx (some (.pathSeg hull))) =
        Member net pins s.objs := by
      funext i
      unfold Member
      by_cases heq : i = idx
      · rw [heq, hself, hseg]
        simp
      · rw [hother i heq]
    show Linked (Member net pins (Function.update s.objs idx (some (.pathSeg hull)))) _
    rw [hmember]
    exact h.linked

theorem shrinkNode_keeps {visited : Nat → Bool} {s : Finish} (h : Keeps net pins visited s)
    (idx : Nat) : ∃ s', shrinkNode s idx = some s' ∧ Keeps net pins visited s' := by
  unfold shrinkNode
  split
  · rename_i first rest seg hplaces hseg
    refine ⟨_, rfl, ?_⟩
    have hat : ∀ pt, At s.reverseNodeMap idx pt ↔ pt ∈ first :: rest := by
      intro pt
      unfold At
      rw [hplaces]
      simp
    obtain ⟨hordered, hinside, hhull⟩ := shrinkSegment_spec first rest
      (h.piece idx seg hseg).1 fun pt hpt => h.contains hseg ((hat pt).mpr hpt)
    exact h.replace hseg hordered hinside fun pt hpt => hhull pt ((hat pt).mp hpt)
  · rename_i hplaces _
    exact absurd rfl (h.nonempty idx [] hplaces)
  · exact ⟨s, rfl, h⟩

theorem shrinkNodes_keeps {visited : Nat → Bool} (idxs : List Nat) {s : Finish}
    (h : Keeps net pins visited s) :
    ∃ s', idxs.foldlM shrinkNode s = some s' ∧ Keeps net pins visited s' := by
  induction idxs generalizing s with
  | nil => exact ⟨s, rfl, h⟩
  | cons idx idxs ih =>
      obtain ⟨s₁, hrun, hkeeps⟩ := shrinkNode_keeps h idx
      obtain ⟨s', hrest, hkeeps'⟩ := ih hkeeps
      refine ⟨s', ?_, hkeeps'⟩
      rw [List.foldlM_cons, hrun]
      exact hrest

/-- After a successful search `finish` runs to its end. -/
theorem finish_keeps {p : TreeSearch.Paths} (hfound : Found net pins p) :
    ∃ s, finish net.objs.length (net.objs.length + pins.entries.length) net.objs p.visited
      (buildNodeMap net.objs pins) = some s ∧ Keeps net pins p.visited s := by
  obtain ⟨s₁, hremove, hremoved⟩ := deleteRedundant_removed hfound
  have hkeeps := hremoved.keeps hfound
  obtain ⟨splits, hsplits, hpending⟩ := psSplits_pending net.objs.length
    (s := { s₁ with reverseNodeMap := sharedPlaces s₁.nodeMap })
    (fun i pt hi hlt => hremoved.exists_obj ((hremoved.place i pt).mp hi).2 hlt) rfl
  obtain ⟨s₃, hsplit, hkeeps₃⟩ := splitSegments_keeps hkeeps hpending
  obtain ⟨s, hshrink, hkeeps₄⟩ := shrinkNodes_keeps
    (List.range (net.objs.length + pins.entries.length + s₃.added)) hkeeps₃
  refine ⟨s, ?_, hkeeps₄⟩
  unfold finish
  dsimp only
  rw [hremove]
  dsimp only [Option.bind_eq_bind, Option.bind_some]
  rw [hsplits]
  dsimp only [Option.bind_some]
  rw [hsplit]
  exact hshrink

/-- Every pin is joined to every other one by the objects that are left. -/
def PinsConnected (net : NetRouteObjs) (pins : Pin2EpMap) (objs : Nat → Option RouteObj) : Prop :=
  ∀ k < pins.entries.length, ∀ l < pins.entries.length, ∃ i j,
    Touch net pins objs (net.objs.length + k) i ∧ Touch net pins objs j (net.objs.length + l) ∧
      (∃ obj, objs j = some obj) ∧
      ReflTransGen (Within (fun i => ∃ obj, objs i = some obj) (Touch net pins objs)) i j

/-- After a successful search `finish` leaves the objects on paths, possibly shorter or split, and
these and the pins touch in one connected net. -/
theorem finished_net_connects (net : NetRouteObjs) (pins : Pin2EpMap) (Q : TopQueue Wavefront.less)
    (fuel : Nat) (p : TreeSearch.Paths)
    (hrun : astar net.objs Q fuel (buildNodeMap net.objs pins)
      (net.objs.length + pins.entries.length) = some (true, p)) :
    ∃ s, finish net.objs.length (net.objs.length + pins.entries.length) net.objs p.visited
        (buildNodeMap net.objs pins) = some s ∧
      Linked (Member net pins s.objs) (Touch net pins s.objs) ∧
      (∀ i seg, s.objs i = some (.pathSeg seg) →
        seg.Ordered ∧ ∃ orig, .pathSeg orig ∈ net.objs ∧ seg.Inside orig) ∧
      ∀ i < net.objs.length, p.isOnPath i = true → ∃ obj, s.objs i = some obj := by
  have hfound := astar_found hrun
  obtain ⟨s, hfinish, hkeeps⟩ := finish_keeps hfound
  refine ⟨s, hfinish, ?_, hkeeps.piece, fun i hlt hi => ?_⟩
  · apply hkeeps.linked.mono
    rintro a b - - ⟨pt, hapt, hbpt⟩
    exact Or.inr ⟨pt, hkeeps.belongs a pt hapt, hkeeps.belongs b pt hbpt⟩
  · rw [← hfound.visited] at hi
    exact hkeeps.kept i hlt hi

/-- Two segments of a net, and three pins; the middle one is at an end of both. -/
def feedthroughNet : NetRouteObjs where
  objs := [.pathSeg ⟨⟨0, 0⟩, ⟨10, 0⟩, 2, true, true⟩, .pathSeg ⟨⟨20, 0⟩, ⟨30, 0⟩, 2, true, true⟩]
  ordered := by
    intro seg hseg
    rcases List.mem_cons.mp hseg with heq | hseg
    · cases heq
      decide
    · cases List.mem_singleton.mp hseg
      decide

def feedthroughPins : Pin2EpMap :=
  buildPin2epMap (fun pt => [if pt.x = 0 then 0 else if pt.x = 30 then 2 else 1]) feedthroughNet.objs

theorem feedthroughPins_entries : feedthroughPins.entries =
    [(0, [⟨0, 0, 2⟩]), (1, [⟨10, 0, 2⟩, ⟨20, 0, 2⟩]), (2, [⟨30, 0, 2⟩])] := by
  decide

def feedthroughRun : Option (Bool × TreeSearch.Paths) :=
  astar feedthroughNet.objs Wavefront.firstBest 9 (buildNodeMap feedthroughNet.objs feedthroughPins) 5

theorem feedthroughRun_eq : ∃ p, feedthroughRun = some (true, p) ∧
    ∃ s, finish 2 5 feedthroughNet.objs p.visited
        (buildNodeMap feedthroughNet.objs feedthroughPins) = some s ∧
      ∀ i, s.objs i = feedthroughNet.objs[i]? := by
  have hresult : feedthroughRun.map Prod.fst = some true := by decide
  have hobjs : feedthroughRun.bind (fun run => (finish 2 5 feedthroughNet.objs run.2.visited
      (buildNodeMap feedthroughNet.objs feedthroughPins)).map fun s =>
        (s.objs 0, s.objs 1, s.added)) =
      some (feedthroughNet.objs[0]?, feedthroughNet.objs[1]?, 0) := by
    decide
  cases hrun : feedthroughRun with
  | none =>
      rw [hrun] at hresult
      cases hresult
  | some run =>
      obtain ⟨found, p⟩ := run
      rw [hrun] at hresult hobjs
      obtain rfl : found = true := Option.some.inj hresult
      obtain ⟨s, hfinish, hkeeps⟩ := finish_keeps
        (show Found feedthroughNet feedthroughPins p from astar_found hrun)
      refine ⟨p, rfl, s, hfinish, fun i => ?_⟩
      change (finish 2 5 feedthroughNet.objs p.visited _).map _ = _ at hobjs
      rw [show finish 2 5 feedthroughNet.objs p.visited _ = some s from hfinish] at hobjs
      obtain ⟨hzero, hone, hadded⟩ : s.objs 0 = feedthroughNet.objs[0]? ∧
          s.objs 1 = feedthroughNet.objs[1]? ∧ s.added = 0 := by
        simpa using hobjs
      match i with
      | 0 => exact hzero
      | 1 => exact hone
      | 2 => exact hkeeps.pin 0 (by decide)
      | 3 => exact hkeeps.pin 1 (by decide)
      | 4 => exact hkeeps.pin 2 (by decide)
      | i + 5 =>
          refine (hkeeps.fresh (i + 5) ?_).1
          rw [hadded]
          exact Nat.le_add_left 5 i

theorem feedthrough_belongs {i : Nat} {pt : Point3D}
    (h : Belongs feedthroughNet feedthroughPins (fun i => feedthroughNet.objs[i]?) i pt) :
    (i = 0 → pt.x ≤ 10) ∧ (i = 1 → 20 ≤ pt.x) ∧ (i = 2 → pt.x = 0) ∧ (i = 4 → pt.x = 30) := by
  rcases h with ⟨obj, hobj, hpt⟩ | ⟨k, entry, rfl, hentry, hpt⟩
  · match i with
    | 0 =>
        cases hobj
        have hx : pt.x ≤ 10 := hpt.2.2.1
        omega
    | 1 =>
        cases hobj
        have hx : 20 ≤ pt.x := hpt.2.1
        omega
    | i + 2 => cases hobj
  · rw [feedthroughPins_entries] at hentry
    show (2 + k = 0 → _) ∧ (2 + k = 1 → _) ∧ (2 + k = 2 → _) ∧ (2 + k = 4 → _)
    refine ⟨fun h => by omega, fun h => by omega, fun h => ?_, fun h => ?_⟩
    · obtain rfl : k = 0 := by omega
      cases hentry
      rw [List.mem_singleton.mp hpt]
    · obtain rfl : k = 2 := by omega
      cases hentry
      rw [List.mem_singleton.mp hpt]

/-- The first segment touches no other object. -/
theorem feedthrough_apart :
    ¬PinsConnected feedthroughNet feedthroughPins (fun i => feedthroughNet.objs[i]?) := by
  intro hall
  obtain ⟨i, j, ⟨pt, hfirst, hi⟩, ⟨pt', hj, hlast⟩, ⟨obj, hobj⟩, hchain⟩ :=
    hall 0 (by decide) 2 (by decide)
  have hlt : ∀ {j : Nat}, (∃ obj, feedthroughNet.objs[j]? = some obj) → j = 0 ∨ j = 1 := by
    rintro j ⟨obj, hobj⟩
    have hlength : j < 2 := (List.getElem?_eq_some_iff.mp hobj).1
    omega
  have hstart : i ≠ 1 := fun h => by
    have hx := (feedthrough_belongs hfirst).2.2.1 rfl
    have hx' := (feedthrough_belongs hi).2.1 h
    omega
  have hend : j ≠ 0 := fun h => by
    have hx := (feedthrough_belongs hlast).2.2.2 rfl
    have hx' := (feedthrough_belongs hj).1 h
    omega
  have hstay : j ≠ 1 := by
    clear hj hobj hend
    induction hchain with
    | refl => exact hstart
    | tail _ hstep ih =>
        obtain ⟨hb, -, q, hbq, hcq⟩ := hstep
        intro hc
        have hx := (feedthrough_belongs hbq).1 ((hlt hb).resolve_right ih)
        have hx' := (feedthrough_belongs hcq).2.1 hc
        omega
  exact (hlt ⟨obj, hobj⟩).elim hend hstay

/-- The pin in the middle joins the segments: without it no object leads from the first pin to the
last one. -/
theorem pins_joined_by_pin : ∃ p s,
    astar feedthroughNet.objs Wavefront.firstBest 9
        (buildNodeMap feedthroughNet.objs feedthroughPins) 5 = some (true, p) ∧
      finish 2 5 feedthroughNet.objs p.visited
        (buildNodeMap feedthroughNet.objs feedthroughPins) = some s ∧
      ¬PinsConnected feedthroughNet feedthroughPins s.objs := by
  obtain ⟨p, hrun, s, hfinish, hobjs⟩ := feedthroughRun_eq
  refine ⟨p, s, hrun, hfinish, ?_⟩
  rw [funext hobjs]
  exact feedthrough_apart

/-- The same net with its pins is connected. -/
theorem feedthrough_net_connects : ∃ p,
    astar feedthroughNet.objs Wavefront.firstBest 9
        (buildNodeMap feedthroughNet.objs feedthroughPins) 5 = some (true, p) ∧
      ∃ s, finish 2 5 feedthroughNet.objs p.visited
          (buildNodeMap feedthroughNet.objs feedthroughPins) = some s ∧
        Linked (Member feedthroughNet feedthroughPins s.objs)
          (Touch feedthroughNet feedthroughPins s.objs) := by
  obtain ⟨p, hrun, -⟩ := feedthroughRun_eq
  obtain ⟨s, hfinish, hlinked, -⟩ := finished_net_connects feedthroughNet feedthroughPins
    Wavefront.firstBest 9 p hrun
  exact ⟨p, hrun, s, hfinish, hlinked⟩

end OpenRoad.Drt.Conn
