import OpenRoad.DrtConnKeep

/-!
The splits of `finish`. A split hands the places of a segment to its two parts, which share the
place of the split; from right to left every split finds its place on the left part.
-/

namespace OpenRoad.Drt.Conn

open Relation PathSeg

variable {net : NetRouteObjs} {pins : Pin2EpMap}

theorem throughSegment_mem {gCnt : Nat} {objs : Nat → Option RouteObj} (pt : Point3D)
    {idxs : List Nat} (hlive : ∀ i ∈ idxs, i < gCnt → ∃ obj, objs i = some obj)
    (psIdx : Option Nat) :
    ∃ found, throughSegment gCnt objs pt psIdx idxs = some found ∧ ∀ i, found = some i →
      psIdx = some i ∨ (i ∈ idxs ∧ i < gCnt ∧ ∃ seg, objs i = some (.pathSeg seg)) := by
  induction idxs generalizing psIdx with
  | nil => exact ⟨psIdx, rfl, fun i hi => Or.inl hi⟩
  | cons idx rest ih =>
      have hrest : ∀ i ∈ rest, i < gCnt → ∃ obj, objs i = some obj := fun i hi =>
        hlive i (List.mem_cons_of_mem _ hi)
      unfold throughSegment
      by_cases hpin : gCnt ≤ idx
      · rw [if_pos hpin]
        obtain ⟨found, hfound, hmem⟩ := ih hrest psIdx
        refine ⟨found, hfound, fun i hi => (hmem i hi).imp id ?_⟩
        exact fun h => ⟨List.mem_cons_of_mem _ h.1, h.2⟩
      · rw [if_neg hpin]
        obtain ⟨obj, hobj⟩ := hlive idx List.mem_cons_self (by omega)
        rw [hobj]
        cases obj with
        | via v => exact ⟨none, rfl, fun i hi => by cases hi⟩
        | pathSeg seg =>
            dsimp only
            split
            · exact ⟨none, rfl, fun i hi => by cases hi⟩
            · obtain ⟨found, hfound, hmem⟩ := ih hrest (some idx)
              refine ⟨found, hfound, fun i hi => Or.inr ?_⟩
              rcases hmem i hi with heq | h
              · rw [← Option.some.inj heq]
                exact ⟨List.mem_cons_self, by omega, seg, hobj⟩
              · exact ⟨List.mem_cons_of_mem _ h.1, h.2⟩

/-- The splits are at places where a segment meets a pin, in the order of the places. -/
theorem psSplits_mem {gCnt : Nat} {s : Finish}
    (hlive : ∀ i pt, i ∈ s.nodeMap.indices pt → i < gCnt → ∃ obj, s.objs i = some obj)
    (places : List Point3D) :
    ∃ splits, psSplits gCnt s places = some splits ∧ (splits.map Prod.fst).Sublist places ∧
      ∀ split ∈ splits, (∃ seg, s.objs split.2 = some (.pathSeg seg)) ∧
        ∃ pin, split.2 ≠ pin ∧ split.2 ∈ s.nodeMap.indices split.1 ∧
          pin ∈ s.nodeMap.indices split.1 := by
  induction places with
  | nil => exact ⟨[], rfl, List.Sublist.refl _, fun split hsplit => by cases hsplit⟩
  | cons pt rest ih =>
      obtain ⟨splits, hsplits, hsub, hmem⟩ := ih
      unfold psSplits
      rw [hsplits]
      by_cases hpin : (s.nodeMap.indices pt).any (gCnt ≤ ·) = true
      · obtain ⟨found, hfound, hidx⟩ := throughSegment_mem pt (fun i hi => hlive i pt hi) none
        unfold psSplit
        rw [if_pos hpin, hfound]
        cases found with
        | none => exact ⟨splits, rfl, hsub.trans (List.sublist_cons_self pt rest), hmem⟩
        | some idx =>
            refine ⟨(pt, idx) :: splits, rfl, hsub.cons_cons pt, fun split hsplit => ?_⟩
            rcases List.mem_cons.mp hsplit with rfl | hsplit
            · rcases hidx idx rfl with hnone | ⟨hi, hlt, hseg⟩
              · cases hnone
              · obtain ⟨pin, hpin, hle⟩ := List.any_eq_true.mp hpin
                have hle := of_decide_eq_true hle
                exact ⟨hseg, pin, (show idx ≠ pin by omega), hi, hpin⟩
            · exact hmem split hsplit
      · unfold psSplit
        rw [if_neg hpin]
        exact ⟨splits, rfl, hsub.trans (List.sublist_cons_self pt rest), hmem⟩

/-- The splits that are still to be made. -/
structure Pending (s : Finish) (splits : List (Point3D × Nat)) : Prop where
  seg : ∀ split ∈ splits, ∃ seg, s.objs split.2 = some (.pathSeg seg)
  place : ∀ split ∈ splits, At s.reverseNodeMap split.2 split.1
  descending : splits.Pairwise fun a b => b.1.le a.1

theorem psSplits_pending (gCnt : Nat) {s : Finish}
    (hlive : ∀ i pt, i ∈ s.nodeMap.indices pt → i < gCnt → ∃ obj, s.objs i = some obj)
    (hrev : s.reverseNodeMap = sharedPlaces s.nodeMap) :
    ∃ splits, psSplits gCnt s s.nodeMap.keys = some splits ∧ Pending s splits.reverse := by
  obtain ⟨splits, hsplits, hsub, hmem⟩ := psSplits_mem hlive s.nodeMap.keys
  refine ⟨splits, hsplits, fun split hsplit => ?_, fun split hsplit => ?_, ?_⟩
  · exact (hmem split (List.mem_reverse.mp hsplit)).1
  · obtain ⟨-, pin, hne, hi, hpin⟩ := hmem split (List.mem_reverse.mp hsplit)
    rw [hrev]
    exact (shared_of_ne hne hi hpin).1
  · rw [List.pairwise_reverse]
    exact List.pairwise_map.mp (s.nodeMap.ordered.sublist hsub)

/-- What a split does: the parts are at the places on their side. -/
structure Splits (idx₂ : Nat) (seg : PathSeg) (split : Point3D × Nat) (s s' : Finish) : Prop where
  object : s.objs split.2 = some (.pathSeg seg)
  place : At s.reverseNodeMap split.2 split.1
  added : s'.added = s.added + 1
  left : s'.objs split.2 = some (.pathSeg (seg.left split.1))
  right : s'.objs idx₂ = some (.pathSeg (seg.right split.1))
  other : ∀ i, i ≠ split.2 → i ≠ idx₂ →
    s'.objs i = s.objs i ∧ s'.reverseNodeMap i = s.reverseNodeMap i
  placeLeft : ∀ pt, At s'.reverseNodeMap split.2 pt ↔ At s.reverseNodeMap split.2 pt ∧
    along (seg.beginPoint.y = seg.endPoint.y) pt ≤ along (seg.beginPoint.y = seg.endPoint.y) split.1
  placeRight : ∀ pt, At s'.reverseNodeMap idx₂ pt ↔ At s.reverseNodeMap split.2 pt ∧
    along (seg.beginPoint.y = seg.endPoint.y) split.1 ≤ along (seg.beginPoint.y = seg.endPoint.y) pt

theorem splitSegment_splits {nCnt : Nat} {s : Finish} {split : Point3D × Nat} {seg : PathSeg}
    (hseg : s.objs split.2 = some (.pathSeg seg)) (hat : At s.reverseNodeMap split.2 split.1)
    (hne : split.2 ≠ nCnt + s.added) :
    ∃ s', splitSegment nCnt s split = some s' ∧ Splits (nCnt + s.added) seg split s s' := by
  have hplace := hat
  obtain ⟨places, hplaces, -⟩ := hat
  have hold : ∀ pt, At s.reverseNodeMap split.2 pt ↔ pt ∈ places := by
    intro pt
    unfold At
    rw [hplaces]
    simp
  unfold splitSegment
  dsimp only
  rw [hseg, hplaces]
  refine ⟨_, rfl, hseg, hplace, rfl, ?_, Function.update_self .., fun i hleft hright => ⟨?_, ?_⟩,
    fun pt => ?_, fun pt => ?_⟩
  · dsimp only
    rw [Function.update_of_ne hne, Function.update_self]
    rfl
  · dsimp only
    rw [Function.update_of_ne hright, Function.update_of_ne hleft]
  · dsimp only
    rw [Function.update_of_ne hright, Function.update_of_ne hleft]
  · rw [hold]
    unfold At
    dsimp only
    rw [Function.update_of_ne hne, Function.update_self]
    simp
  · rw [hold]
    unfold At
    dsimp only
    rw [Function.update_self]
    simp

theorem At.ne_nil {rev : Nat → Option (List Point3D)} {i : Nat} {pt : Point3D} (h : At rev i pt)
    {places : List Point3D} (hplaces : rev i = some places) : places ≠ [] := by
  obtain ⟨others, hothers, hmem⟩ := h
  rw [hplaces] at hothers
  rw [Option.some.inj hothers]
  exact List.ne_nil_of_mem hmem

theorem At.congr {rev rev' : Nat → Option (List Point3D)} {i : Nat} (h : rev' i = rev i)
    {pt : Point3D} : At rev' i pt ↔ At rev i pt := by
  unfold At
  rw [h]

namespace Splits

variable {visited : Nat → Bool} {s s' : Finish} {split : Point3D × Nat} {seg : PathSeg}
  (h : Keeps net pins visited s)
  (hsplits : Splits (net.objs.length + pins.entries.length + s.added) seg split s s')
include h hsplits

theorem ne_pin {k : Nat} (hk : k < pins.entries.length) : net.objs.length + k ≠ split.2 := by
  intro heq
  have hnone := h.pin k hk
  rw [heq, hsplits.object] at hnone
  cases hnone

omit h in
/-- The parts share the split. -/
theorem parts_share :
    Shares s'.reverseNodeMap split.2 (net.objs.length + pins.entries.length + s.added) := by
  refine ⟨split.1, (hsplits.placeLeft _).mpr ⟨hsplits.place, le_refl _⟩, ?_⟩
  exact (hsplits.placeRight _).mpr ⟨hsplits.place, le_refl _⟩

theorem belongs (i : Nat) (pt : Point3D) (hi : At s'.reverseNodeMap i pt) :
    Belongs net pins s'.objs i pt := by
  have hordered := (h.piece _ _ hsplits.object).1
  have hsplit := h.contains hsplits.object hsplits.place
  by_cases hleft : i = split.2
  · subst hleft
    obtain ⟨hold, hle⟩ := (hsplits.placeLeft pt).mp hi
    have hpt := h.contains hsplits.object hold
    exact Or.inl ⟨_, hsplits.left, left_contains hordered hsplit hpt hle⟩
  by_cases hright : i = net.objs.length + pins.entries.length + s.added
  · subst hright
    obtain ⟨hold, hle⟩ := (hsplits.placeRight pt).mp hi
    have hpt := h.contains hsplits.object hold
    exact Or.inl ⟨_, hsplits.right, right_contains hordered hsplit hpt hle⟩
  · obtain ⟨hobj, hrev⟩ := hsplits.other i hleft hright
    unfold Belongs
    rw [hobj]
    exact h.belongs i pt ((At.congr hrev).mp hi)

theorem piece (i : Nat) (part : PathSeg) (hpart : s'.objs i = some (.pathSeg part)) :
    part.Ordered ∧ ∃ orig, .pathSeg orig ∈ net.objs ∧ part.Inside orig := by
  obtain ⟨hordered, orig, horig, hinside⟩ := h.piece _ _ hsplits.object
  have hsplit := h.contains hsplits.object hsplits.place
  by_cases hleft : i = split.2
  · rw [hleft, hsplits.left] at hpart
    cases hpart
    exact ⟨left_ordered hordered hsplit, orig, horig, (left_inside hsplit).trans hinside⟩
  by_cases hright : i = net.objs.length + pins.entries.length + s.added
  · rw [hright, hsplits.right] at hpart
    cases hpart
    exact ⟨right_ordered hordered hsplit, orig, horig, (right_inside hsplit).trans hinside⟩
  · rw [(hsplits.other i hleft hright).1] at hpart
    exact h.piece i part hpart

omit h in
/-- The nodes after a split: those before it, and the right part. -/
theorem member_iff (i : Nat) : Member net pins s'.objs i ↔
    Member net pins s.objs i ∨ i = net.objs.length + pins.entries.length + s.added := by
  unfold Member
  by_cases hleft : i = split.2
  · rw [hleft, hsplits.left, hsplits.object]
    simp
  by_cases hright : i = net.objs.length + pins.entries.length + s.added
  · rw [hright, hsplits.right]
    simp
  · rw [(hsplits.other i hleft hright).1]
    simp [hright]

/-- The part that has a place of a node. -/
theorem exists_part {i : Nat} (hi : Member net pins s.objs i) {pt : Point3D}
    (hat : At s.reverseNodeMap i pt) :
    ∃ j, Member net pins s'.objs j ∧ At s'.reverseNodeMap j pt ∧
      ReflTransGen (Within (Member net pins s'.objs) (Shares s'.reverseNodeMap)) i j := by
  have hmember : Member net pins s'.objs i := (hsplits.member_iff i).mpr (Or.inl hi)
  have hnew := (hsplits.member_iff _).mpr (Or.inr rfl)
  by_cases hleft : i = split.2
  · subst hleft
    by_cases hle : along (seg.beginPoint.y = seg.endPoint.y) pt ≤
        along (seg.beginPoint.y = seg.endPoint.y) split.1
    · exact ⟨_, hmember, (hsplits.placeLeft pt).mpr ⟨hat, hle⟩, ReflTransGen.refl⟩
    · refine ⟨_, hnew, (hsplits.placeRight pt).mpr ⟨hat, by omega⟩, ?_⟩
      exact ReflTransGen.single ⟨hmember, hnew, hsplits.parts_share⟩
  · have hright : i ≠ net.objs.length + pins.entries.length + s.added := by
      rintro rfl
      obtain ⟨places, hplaces, -⟩ := hat
      rw [(h.fresh _ (le_refl _)).2] at hplaces
      cases hplaces
    have hrev := (hsplits.other i hleft hright).2
    exact ⟨i, hmember, (At.congr hrev).mpr hat, ReflTransGen.refl⟩

theorem linked : Linked (Member net pins s'.objs) (Shares s'.reverseNodeMap) := by
  refine h.linked.refine (fun _ _ => Shares.symm) (fun b hb => ?_) fun a b ha hb hab => ?_
  · rcases (hsplits.member_iff b).mp hb with hold | rfl
    · exact ⟨b, hold, ReflTransGen.refl⟩
    · have hleft : Member net pins s.objs split.2 := Or.inl ⟨_, hsplits.object⟩
      refine ⟨split.2, hleft, ReflTransGen.single ⟨?_, hb, hsplits.parts_share⟩⟩
      exact (hsplits.member_iff _).mpr (Or.inl hleft)
  · obtain ⟨pt, hapt, hbpt⟩ := hab
    obtain ⟨a', ha', hapt', hachain⟩ := hsplits.exists_part h ha hapt
    obtain ⟨b', hb', hbpt', hbchain⟩ := hsplits.exists_part h hb hbpt
    have hstep : Within (Member net pins s'.objs) (Shares s'.reverseNodeMap) a' b' :=
      ⟨ha', hb', pt, hapt', hbpt'⟩
    exact (hachain.tail hstep).trans (Linked.chain_symm (fun _ _ => Shares.symm) hbchain)

theorem keeps : Keeps net pins visited s' where
  belongs := hsplits.belongs h
  piece := hsplits.piece h
  pin := by
    intro k hk
    rw [(hsplits.other _ (hsplits.ne_pin h hk) (by omega)).1]
    exact h.pin k hk
  fresh := by
    intro i hi
    rw [hsplits.added] at hi
    have hold := h.fresh i (by omega)
    have hleft : i ≠ split.2 := by
      rintro rfl
      rw [hsplits.object] at hold
      cases hold.1
    obtain ⟨hobj, hrev⟩ := hsplits.other i hleft (by omega)
    rw [hobj, hrev]
    exact hold
  nonempty := by
    intro i places hplaces
    obtain ⟨pt, hleftPt, hrightPt⟩ := hsplits.parts_share
    by_cases hleft : i = split.2
    · rw [hleft] at hplaces
      exact hleftPt.ne_nil hplaces
    by_cases hright : i = net.objs.length + pins.entries.length + s.added
    · rw [hright] at hplaces
      exact hrightPt.ne_nil hplaces
    · rw [(hsplits.other i hleft hright).2] at hplaces
      exact h.nonempty i places hplaces
  kept := by
    intro i hlt hi
    by_cases hleft : i = split.2
    · rw [hleft]
      exact ⟨_, hsplits.left⟩
    · rw [(hsplits.other i hleft (by omega)).1]
      exact h.kept i hlt hi
  linked := hsplits.linked h

/-- The splits left of this one stay on the left part. -/
theorem pending {rest : List (Point3D × Nat)} (hpending : Pending s (split :: rest)) :
    Pending s' rest where
  seg := by
    intro later hlater
    by_cases hleft : later.2 = split.2
    · rw [hleft]
      exact ⟨_, hsplits.left⟩
    · obtain ⟨other, hother⟩ := hpending.seg later (List.mem_cons_of_mem _ hlater)
      refine ⟨other, ?_⟩
      rw [(hsplits.other _ hleft fun hfresh => ?_).1]
      · exact hother
      · rw [hfresh, (h.fresh _ (le_refl _)).1] at hother
        cases hother
  place := by
    intro later hlater
    have hplace := hpending.place later (List.mem_cons_of_mem _ hlater)
    by_cases hleft : later.2 = split.2
    · rw [hleft] at hplace ⊢
      refine (hsplits.placeLeft _).mpr ⟨hplace, ?_⟩
      have hle := (List.pairwise_cons.mp hpending.descending).1 later hlater
      obtain ⟨hx, hy⟩ := (h.piece _ _ hsplits.object).1.le_coords (h.contains hsplits.object hplace)
        (h.contains hsplits.object hsplits.place) hle
      unfold along
      split
      · exact hx
      · exact hy
    · refine (At.congr (hsplits.other _ hleft fun hfresh => ?_).2).mpr hplace
      obtain ⟨places, hplaces, -⟩ := hplace
      rw [hfresh, (h.fresh _ (le_refl _)).2] at hplaces
      cases hplaces
  descending := (List.pairwise_cons.mp hpending.descending).2

end Splits

/-- All splits succeed. -/
theorem splitSegments_keeps {visited : Nat → Bool} {splits : List (Point3D × Nat)} {s : Finish}
    (h : Keeps net pins visited s) (hpending : Pending s splits) :
    ∃ s', splits.foldlM (splitSegment (net.objs.length + pins.entries.length)) s = some s' ∧
      Keeps net pins visited s' := by
  induction splits generalizing s with
  | nil => exact ⟨s, rfl, h⟩
  | cons split rest ih =>
      obtain ⟨seg, hseg⟩ := hpending.seg split List.mem_cons_self
      have hat := hpending.place split List.mem_cons_self
      have hne : split.2 ≠ net.objs.length + pins.entries.length + s.added := by
        intro heq
        rw [heq, (h.fresh _ (le_refl _)).1] at hseg
        cases hseg
      obtain ⟨s₁, hrun, hsplits⟩ := splitSegment_splits hseg hat hne
      obtain ⟨s', hrest, hkeeps⟩ := ih (hsplits.keeps h) (hsplits.pending h hpending)
      refine ⟨s', ?_, hkeeps⟩
      rw [List.foldlM_cons, hrun]
      exact hrest

end OpenRoad.Drt.Conn
