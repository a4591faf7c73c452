import OpenRoad.ParGroupInfo

/-!
When the clusters honour the groups. A group that brings together vertices of two clusters takes
over only its own vertices of the lower one, so the groups are honoured exactly when that never
happens; an empty group uses up an id.
-/

namespace OpenRoad.Par

open GroupLinks

variable {d k : Nat}

namespace Clustering

/-- Groups have one id each, vertices that are not linked have different ids, and the ids are the
first ones. -/
structure Honours (groups : List (List Nat)) (n : Nat) (ids : Nat → Int) : Prop where
  constant : ∀ g ∈ groups, ∀ u ∈ g, ∀ v ∈ g, ids u = ids v
  apart : ∀ u < n, ∀ v < n, ¬GroupLinks.Linked groups u v → ids u ≠ ids v
  used : ∃ numIds : Nat, ∀ c : Int, (∃ v < n, ids v = c) ↔ 0 ≤ c ∧ c < numIds

/-- After an empty group no vertex starts a cluster. -/
def EmptyLast (groups : List (List Nat)) (n : Nat) : Prop :=
  ∀ earlier later, groups = earlier ++ [] :: later →
    ∀ v < n, ∃ u, Covered earlier u ∧ GroupLinks.Linked groups v u

variable {groups : List (List Nat)} {n : Nat}

theorem final_of_covered {v : Nat} (hv : Covered groups v) (n : Nat) :
    ((ofGroups groups).addVertices n).clusterIds v = (ofGroups groups).clusterIds v :=
  (addVertices_spec _ n).1 v (Or.inl fun h => ((labelled_ofGroups groups).none_iff v).mp h hv)

theorem covered_bounds {v : Nat} (hv : Covered groups v) :
    0 ≤ (ofGroups groups).clusterIds v ∧
      (ofGroups groups).clusterIds v < (ofGroups groups).clusterId := by
  have hs := labelled_ofGroups groups
  have hlow := hs.low v
  have hne : (ofGroups groups).clusterIds v ≠ -1 := fun h => (hs.none_iff v).mp h hv
  exact ⟨by omega, hs.lt v⟩

/-- A vertex in no group has an id that no group has. -/
theorem final_of_not_covered {v : Nat} (hv : ¬Covered groups v) (hn : v < n) :
    (ofGroups groups).clusterId ≤ ((ofGroups groups).addVertices n).clusterIds v :=
  ((addVertices_spec _ n).2.2.1 v hn (((labelled_ofGroups groups).none_iff v).mpr hv)).1

theorem covered_of_final_lt {v : Nat} (hn : v < n)
    (hlt : ((ofGroups groups).addVertices n).clusterIds v < (ofGroups groups).clusterId) :
    Covered groups v := by
  by_contra hv
  exact absurd (final_of_not_covered hv hn) (not_le.mpr hlt)

theorem final_apart (u : Nat) (hu : u < n) (v : Nat) (hv : v < n)
    (hlinked : ¬GroupLinks.Linked groups u v) :
    ((ofGroups groups).addVertices n).clusterIds u ≠
      ((ofGroups groups).addVertices n).clusterIds v := by
  intro heq
  have hs := labelled_ofGroups groups
  by_cases hcu : Covered groups u
  · have hlt := (covered_bounds hcu).2
    rw [← final_of_covered hcu n] at hlt
    have hcv := covered_of_final_lt hv (heq ▸ hlt)
    rw [final_of_covered hcu, final_of_covered hcv] at heq
    exact hlinked (hs.linked u v heq fun h => (hs.none_iff u).mp h hcu)
  · have hcv : ¬Covered groups v := by
      intro hcv
      have hlt := (covered_bounds hcv).2
      rw [← final_of_covered hcv n, ← heq] at hlt
      exact hcu (covered_of_final_lt hu hlt)
    obtain rfl := (addVertices_spec _ n).2.2.2.1 u hu v hv ((hs.none_iff u).mpr hcu)
      ((hs.none_iff v).mpr hcv) heq
    exact hlinked Relation.ReflTransGen.refl

/-! ### Honoured groups are unjoined -/

/-- The vertex whose cluster is lower than another one of its group leaves the cluster, and the rest
of it, or the gap, stays. -/
theorem Honours.ids_not_lt (h : Honours groups n ((ofGroups groups).addVertices n).clusterIds)
    (hrange : ∀ g ∈ groups, ∀ v ∈ g, v < n) {earlier later : List (List Nat)} {g : List Nat}
    (hgroups : groups = earlier ++ g :: later) {u v : Nat} (hu : u ∈ g) (hv : v ∈ g)
    (hcu : Covered earlier u) (hcv : Covered earlier v) :
    ¬(ofGroups earlier).clusterIds u < (ofGroups earlier).clusterIds v := by
  intro hlt
  have hearlier := labelled_ofGroups earlier
  have hgmem : g ∈ groups := by
    rw [hgroups]
    exact List.mem_append_right _ List.mem_cons_self
  have hsub : ∀ g' ∈ earlier, g' ∈ groups := by
    intro g' hg'
    rw [hgroups]
    exact List.mem_append_left _ hg'
  obtain ⟨hu0, hultC⟩ := covered_bounds hcu
  obtain ⟨hv0, -⟩ := covered_bounds hcv
  -- the id of `u` is greater afterwards
  have hgreater : (ofGroups earlier).clusterIds u < (ofGroups groups).clusterIds u := by
    obtain ⟨c, hids, hcase⟩ := addGroup_spec hearlier.low g
    have hc : (ofGroups earlier).clusterIds v ≤ c := by
      rcases hcase with ⟨-, -, hnone⟩ | ⟨-, -, hle, -⟩
      · have := hnone v hv
        omega
      · exact hle v hv
    have hself : (ofGroups (earlier ++ [g])).clusterIds u = c := by
      rw [ofGroups_append_singleton, hids]
      exact if_pos hu
    have hmono := (later_spec (earlier ++ [g]) later).1 u
    rw [List.append_assoc, List.singleton_append, ← hgroups, hself] at hmono
    omega
  have hcovered : Covered groups u := ⟨g, hgmem, hu⟩
  obtain ⟨numIds, hused⟩ := h.used
  have hfinal := final_of_covered hcovered n
  have hunum := ((hused _).mp ⟨u, hrange g hgmem u hu, rfl⟩).2
  rw [hfinal] at hunum
  obtain ⟨w, hw, hwid⟩ := (hused ((ofGroups earlier).clusterIds u)).mpr ⟨hu0, by omega⟩
  -- whoever has the old id of `u` in the end is linked to it
  obtain ⟨-, hnext, hkept⟩ := later_spec earlier (g :: later)
  rw [← hgroups] at hnext hkept
  have hcw : Covered groups w := covered_of_final_lt hw (by omega)
  rw [final_of_covered hcw] at hwid
  have hlinked : GroupLinks.Linked groups w u := by
    apply hkept (fun i x => i = (ofGroups earlier).clusterIds u → GroupLinks.Linked groups x u) _ _ w
      (by omega) (by omega) hwid
    · rintro i x y hx ⟨g', hg', hxg, hyg⟩ hi
      have hg'' : g' ∈ groups := by
        rw [hgroups]
        exact List.mem_append_right _ hg'
      exact (linked_of_mem hg'' hyg hxg).trans (hx hi)
    · intro x _ hx
      exact (hearlier.linked x u hx (by omega)).mono hsub
  have hsame := hlinked.label_eq h.constant
  rw [final_of_covered hcw, hfinal] at hsame
  omega

theorem Honours.unjoined (h : Honours groups n ((ofGroups groups).addVertices n).clusterIds)
    (hrange : ∀ g ∈ groups, ∀ v ∈ g, v < n) : Unjoined groups := by
  intro earlier g later hgroups u hu v hv hcu hcv
  have hearlier := labelled_ofGroups earlier
  apply hearlier.linked u v _ fun hnone => (hearlier.none_iff u).mp hnone hcu
  exact le_antisymm (not_lt.mp (h.ids_not_lt hrange hgroups hv hu hcv hcu))
    (not_lt.mp (h.ids_not_lt hrange hgroups hu hv hcu hcv))

theorem Honours.emptyLast (h : Honours groups n ((ofGroups groups).addVertices n).clusterIds) :
    EmptyLast groups n := by
  intro earlier later hgroups v hv
  have hearlier := labelled_ofGroups earlier
  -- the id that the empty group takes is not used
  have hempty : ofGroups (earlier ++ [[]]) =
      ⟨(ofGroups earlier).clusterIds, (ofGroups earlier).clusterId + 1⟩ :=
    ofGroups_append_singleton earlier []
  have hnext := (later_spec (earlier ++ [[]]) later).2.1
  have hkept := (later_spec (earlier ++ [[]]) later).2.2
  rw [List.append_assoc, List.singleton_append, ← hgroups, hempty] at hnext hkept
  dsimp only at hnext hkept
  have hfree : ∀ x < n, ((ofGroups groups).addVertices n).clusterIds x ≠
      (ofGroups earlier).clusterId := by
    intro x hx hxid
    have hcx : Covered groups x := covered_of_final_lt hx (by omega)
    rw [final_of_covered hcx] at hxid
    refine hkept (fun i _ => i ≠ (ofGroups earlier).clusterId) (fun i _ _ hi _ => hi)
      (fun y _ => ne_of_lt (hearlier.lt y)) x (by omega) (by omega) hxid
  obtain ⟨numIds, hused⟩ := h.used
  have hnum : (numIds : Int) ≤ (ofGroups earlier).clusterId := by
    by_contra hlt
    obtain ⟨x, hx, hxid⟩ := (hused ((ofGroups earlier).clusterId)).mpr ⟨by omega, by omega⟩
    exact hfree x hx hxid
  obtain ⟨hv0, hvlt⟩ := (hused _).mp ⟨v, hv, rfl⟩
  have hcv : Covered groups v := covered_of_final_lt hv (by omega)
  rw [final_of_covered hcv] at hv0 hvlt
  have hkept' := (later_spec earlier ([] :: later)).2.2
  rw [← hgroups] at hkept'
  apply hkept' (fun _ x => ∃ u, Covered earlier u ∧ GroupLinks.Linked groups x u) _ _ v hv0 (by omega)
  · rintro _ x y ⟨u, hu, hxu⟩ ⟨g', hg', hxg, hyg⟩
    have hg'' : g' ∈ groups := by
      rw [hgroups]
      exact List.mem_append_right _ hg'
    exact ⟨u, hu, (linked_of_mem hg'' hyg hxg).trans hxu⟩
  · intro x hx
    refine ⟨x, ?_, Relation.ReflTransGen.refl⟩
    by_contra hnone
    rw [(hearlier.none_iff x).mpr hnone] at hx
    omega

/-! ### Unjoined groups are honoured -/

theorem unjoined_honours (hrange : ∀ g ∈ groups, ∀ v ∈ g, v < n) (hunjoined : Unjoined groups)
    (hempty : EmptyLast groups n) :
    Honours groups n ((ofGroups groups).addVertices n).clusterIds := by
  have hconstant : ∀ g ∈ groups, ∀ u ∈ g, ∀ v ∈ g,
      ((ofGroups groups).addVertices n).clusterIds u =
        ((ofGroups groups).addVertices n).clusterIds v := by
    intro g hg u hu v hv
    rw [final_of_covered ⟨g, hg, hu⟩, final_of_covered ⟨g, hg, hv⟩]
    exact unjoined_constant hunjoined g hg u hu v hv
  have hlt : ∀ v, Covered groups v → v < n := fun v ⟨g, hg, hv⟩ => hrange g hg v hv
  refine ⟨hconstant, final_apart, ?_⟩
  by_cases hmem : [] ∈ groups
  · -- all ids are those of the groups before the first empty one
    obtain ⟨earlier, later, hgroups, hfirst⟩ := List.eq_append_cons_of_mem hmem
    have hcovered : ∀ v, Covered earlier v → Covered groups v := by
      rintro v ⟨g, hg, hv⟩
      refine ⟨g, ?_, hv⟩
      rw [hgroups]
      exact List.mem_append_left _ hg
    have hstable : ∀ v, Covered earlier v →
        ((ofGroups groups).addVertices n).clusterIds v = (ofGroups earlier).clusterIds v := by
      intro v hv
      rw [final_of_covered (hcovered v hv)]
      have hunjoined' := hunjoined
      rw [hgroups] at hunjoined' ⊢
      exact unjoined_stable hunjoined' hv
    refine ⟨(ofGroups earlier).clusterId, fun c => ⟨?_, ?_⟩⟩
    · rintro ⟨v, hv, rfl⟩
      obtain ⟨u, hu, hlinked⟩ := hempty earlier later hgroups v hv
      rw [hlinked.label_eq hconstant, hstable u hu]
      exact covered_bounds hu
    · rintro ⟨hc, hcl⟩
      rw [hgroups] at hunjoined
      obtain ⟨v, hv, hvc⟩ := unjoined_used hunjoined.of_append hfirst hc hcl
      exact ⟨v, hlt v (hcovered v hv), (hstable v hv).trans hvc⟩
  · obtain ⟨-, hnext, hnew, -, hused⟩ := addVertices_spec (ofGroups groups) n
    refine ⟨((ofGroups groups).addVertices n).clusterId, fun c => ⟨?_, ?_⟩⟩
    · rintro ⟨v, hv, rfl⟩
      by_cases hcv : Covered groups v
      · rw [final_of_covered hcv]
        have := covered_bounds hcv
        omega
      · have := hnew v hv (((labelled_ofGroups groups).none_iff v).mpr hcv)
        omega
    · rintro ⟨hc, hcl⟩
      by_cases hold : c < (ofGroups groups).clusterId
      · obtain ⟨v, hv, hvc⟩ := unjoined_used hunjoined hmem hc hold
        exact ⟨v, hlt v hv, (final_of_covered hv n).trans hvc⟩
      · exact hused c (not_lt.mp hold) hcl

theorem honours_iff (hrange : ∀ g ∈ groups, ∀ v ∈ g, v < n) :
    Honours groups n ((ofGroups groups).addVertices n).clusterIds ↔
      Unjoined groups ∧ EmptyLast groups n :=
  ⟨fun h => ⟨h.unjoined hrange, h.emptyLast⟩, fun h => unjoined_honours hrange h.1 h.2⟩

end Clustering

/-! ### The groups of a hypergraph -/

/-- A group, or a block that they are fixed in, holds two vertices together. -/
def Together (H : Hypergraph d k) (groupAttr : List (List Nat)) (u v : Nat) : Prop :=
  (∃ g ∈ groupAttr, u ∈ g ∧ v ∈ g) ∨
    u < H.numVertices ∧ v < H.numVertices ∧ -1 < H.fixed u ∧ H.fixed v = H.fixed u

/-- The vertices of a group have one id, those that are fixed in one block too, vertices that are not
forced together have different ids, and the ids are the first ones. -/
structure GroupsHonoured (H : Hypergraph d k) (groupAttr : List (List Nat))
    (ids : Nat → Int) : Prop where
  groups : ∀ g ∈ groupAttr, ∀ u ∈ g, ∀ v ∈ g, ids u = ids v
  fixed : ∀ u < H.numVertices, ∀ v < H.numVertices, -1 < H.fixed u → H.fixed v = H.fixed u →
    ids u = ids v
  apart : ∀ u < H.numVertices, ∀ v < H.numVertices,
    ¬Relation.ReflTransGen (Together H groupAttr) u v → ids u ≠ ids v
  used : ∃ numClusters : Nat, ∀ c : Int,
    (∃ v < H.numVertices, ids v = c) ↔ 0 ≤ c ∧ c < numClusters

section

variable {H : Hypergraph d k} {numParts : Nat} {groupAttr : List (List Nat)}

theorem mem_fixedGroups {g : List Nat} :
    g ∈ fixedGroups H numParts ↔ g ≠ [] ∧ ∃ b : Nat, b < numParts ∧
      ((List.range H.numVertices).filter fun v => H.fixed v = b) = g := by
  unfold fixedGroups
  rw [List.mem_filter, List.mem_map, decide_eq_true_eq]
  constructor
  · rintro ⟨⟨b, hb, hg⟩, hne⟩
    exact ⟨hne, b, List.mem_range.mp hb, hg⟩
  · rintro ⟨hne, b, hb, hg⟩
    exact ⟨⟨b, List.mem_range.mpr hb, hg⟩, hne⟩

theorem shares_iff (hfixed : ∀ v < H.numVertices, H.fixed v < numParts) {u v : Nat} :
    Shares (fixedGroups H numParts ++ groupAttr) u v ↔ Together H groupAttr u v := by
  constructor
  · rintro ⟨g, hg, hu, hv⟩
    rcases List.mem_append.mp hg with hg | hg
    · obtain ⟨-, b, -, rfl⟩ := mem_fixedGroups.mp hg
      rw [List.mem_filter, List.mem_range, decide_eq_true_eq] at hu hv
      exact Or.inr ⟨hu.1, hv.1, by omega, hv.2.trans hu.2.symm⟩
    · exact Or.inl ⟨g, hg, hu, hv⟩
  · rintro (⟨g, hg, hu, hv⟩ | ⟨hu, hv, hlow, heq⟩)
    · exact ⟨g, List.mem_append_right _ hg, hu, hv⟩
    · have hb := hfixed u hu
      have hcast : ((H.fixed u).toNat : Int) = H.fixed u := Int.toNat_of_nonneg (by omega)
      have hmem : ∀ w < H.numVertices, H.fixed w = H.fixed u →
          w ∈ (List.range H.numVertices).filter fun v => H.fixed v = ((H.fixed u).toNat : Int) := by
        intro w hw hwu
        rw [List.mem_filter, List.mem_range, decide_eq_true_eq, hcast]
        exact ⟨hw, hwu⟩
      refine ⟨_, List.mem_append_left _ (mem_fixedGroups.mpr ⟨?_, (H.fixed u).toNat, ?_, rfl⟩),
        hmem u hu rfl, hmem v hv heq⟩
      · exact List.ne_nil_of_mem (hmem u hu rfl)
      · omega

theorem addVertices_start (n : Nat) :
    Clustering.start.addVertices n = ⟨fun v => if v < n then v else -1, n⟩ := by
  induction n with
  | zero =>
      have hzero : Clustering.start.addVertices 0 = Clustering.start := rfl
      rw [hzero]
      simp [Clustering.start]
  | succ n ih =>
      have hstep : Clustering.start.addVertices (n + 1) =
          (Clustering.start.addVertices n).addVertex n := by
        unfold Clustering.addVertices
        rw [List.range_succ, List.foldl_append]
        rfl
      rw [hstep, ih]
      have hadd : (⟨fun v => if v < n then v else -1, n⟩ : Clustering).addVertex n =
          ⟨Function.update (fun v => if v < n then (v : Int) else -1) n n, n + 1⟩ :=
        if_pos (if_neg (Nat.lt_irrefl n))
      rw [hadd]
      congr 1
      funext v
      by_cases hv : v = n
      · rw [hv, Function.update_self, if_pos (Nat.lt_succ_self n)]
      · rw [Function.update_of_ne hv]
        exact if_congr (by omega) rfl rfl

/-- The ids of the vertices are those of one pass over all groups, also where there are none. -/
theorem clusterBasedGroupInfo_ids {v : Nat} (hv : v < H.numVertices) :
    (clusterBasedGroupInfo H numParts groupAttr).clusterIds v =
      ((Clustering.ofGroups (fixedGroups H numParts ++ groupAttr)).addVertices
        H.numVertices).clusterIds v := by
  unfold clusterBasedGroupInfo
  split
  · rename_i hnone
    obtain ⟨rfl, hlength⟩ := hnone
    have hfree : fixedGroups H numParts = [] := by
      apply List.eq_nil_iff_forall_not_mem.mpr
      intro g hg
      obtain ⟨hne, b, -, rfl⟩ := mem_fixedGroups.mp hg
      apply hne
      apply List.filter_eq_nil_iff.mpr
      intro v _
      have hfixed : H.fixed v = -1 := by
        unfold Hypergraph.fixed
        rw [List.eq_nil_of_length_eq_zero hlength]
        rfl
      rw [decide_eq_true_eq, hfixed]
      omega
    have hstart : Clustering.ofGroups ([] : List (List Nat)) = Clustering.start := rfl
    rw [hfree, List.append_nil, hstart, addVertices_start]
    exact (if_pos hv).symm
  · rfl

/-- The groups are honoured when no group joins clusters of earlier ones, those of the fixed vertices
coming first, and no vertex starts a cluster after an empty group. -/
theorem groupsHonoured_iff (hfixed : ∀ v < H.numVertices, H.fixed v < numParts)
    (hgroups : ∀ g ∈ groupAttr, ∀ v ∈ g, v < H.numVertices) :
    GroupsHonoured H groupAttr (clusterBasedGroupInfo H numParts groupAttr).clusterIds ↔
      Unjoined (fixedGroups H numParts ++ groupAttr) ∧
        Clustering.EmptyLast (fixedGroups H numParts ++ groupAttr) H.numVertices := by
  have hrange : ∀ g ∈ fixedGroups H numParts ++ groupAttr, ∀ v ∈ g, v < H.numVertices := by
    intro g hg v hv
    rcases List.mem_append.mp hg with hg | hg
    · obtain ⟨-, b, -, rfl⟩ := mem_fixedGroups.mp hg
      exact List.mem_range.mp (List.mem_filter.mp hv).1
    · exact hgroups g hg v hv
  have hshares : Shares (fixedGroups H numParts ++ groupAttr) = Together H groupAttr := by
    funext u v
    exact propext (shares_iff hfixed)
  have hids : ∀ v < H.numVertices, (clusterBasedGroupInfo H numParts groupAttr).clusterIds v =
      ((Clustering.ofGroups (fixedGroups H numParts ++ groupAttr)).addVertices
        H.numVertices).clusterIds v := fun v hv => clusterBasedGroupInfo_ids hv
  rw [← Clustering.honours_iff hrange]
  constructor
  · intro h
    refine ⟨?_, ?_, ?_⟩
    · intro g hg u hu v hv
      rw [← hids u (hrange g hg u hu), ← hids v (hrange g hg v hv)]
      rcases shares_iff hfixed |>.mp ⟨g, hg, hu, hv⟩ with ⟨g', hg', hu', hv'⟩ |
        ⟨hun, hvn, hlow, heq⟩
      · exact h.groups g' hg' u hu' v hv'
      · exact h.fixed u hun v hvn hlow heq
    · intro u hu v hv hlinked
      rw [← hids u hu, ← hids v hv]
      apply h.apart u hu v hv
      rw [← hshares]
      exact hlinked
    · obtain ⟨numIds, hused⟩ := h.used
      refine ⟨numIds, fun c => ?_⟩
      rw [← hused c]
      exact exists_congr fun v => and_congr_right fun hv => by rw [hids v hv]
  · intro h
    have hsame : ∀ u v, Together H groupAttr u v → u < H.numVertices → v < H.numVertices →
        (clusterBasedGroupInfo H numParts groupAttr).clusterIds u =
          (clusterBasedGroupInfo H numParts groupAttr).clusterIds v := by
      intro u v htogether hu hv
      obtain ⟨g, hg, hug, hvg⟩ := (shares_iff hfixed).mpr htogether
      rw [hids u hu, hids v hv]
      exact h.constant g hg u hug v hvg
    refine ⟨?_, ?_, ?_, ?_⟩
    · intro g hg u hu v hv
      exact hsame u v (Or.inl ⟨g, hg, hu, hv⟩) (hgroups g hg u hu) (hgroups g hg v hv)
    · intro u hu v hv hlow heq
      exact hsame u v (Or.inr ⟨hu, hv, hlow, heq⟩) hu hv
    · intro u hu v hv hforced
      rw [hids u hu, hids v hv]
      apply h.apart u hu v hv
      unfold GroupLinks.Linked
      rw [hshares]
      exact hforced
    · obtain ⟨numIds, hused⟩ := h.used
      refine ⟨numIds, fun c => ?_⟩
      rw [← hused c]
      exact exists_congr fun v => and_congr_right fun hv => by rw [hids v hv]

end

/-- Six vertices, of which two are fixed in different blocks. -/
def sixVertices : Hypergraph 1 1 :=
  .make [] [1, 1, 1, 1, 1, 1] [] [0, -1, -1, 1, -1, -1]

theorem sixVertices_honoured :
    GroupsHonoured sixVertices [[0, 1], [2, 4]]
        (clusterBasedGroupInfo sixVertices 2 [[0, 1], [2, 4]]).clusterIds ↔
      Unjoined (fixedGroups sixVertices 2 ++ [[0, 1], [2, 4]]) ∧
        Clustering.EmptyLast (fixedGroups sixVertices 2 ++ [[0, 1], [2, 4]]) 6 :=
  groupsHonoured_iff (by decide) (by decide)

/-- A third group takes a vertex of the first and a vertex of the second group, and the other vertex
of the first group stays behind. -/
theorem not_groupsHonoured :
    ¬GroupsHonoured (Hypergraph.make [] [1, 1, 1, 1] [] [] : Hypergraph 1 1)
      [[0, 1], [2, 3], [1, 2]]
      (clusterBasedGroupInfo (Hypergraph.make [] [1, 1, 1, 1] [] [] : Hypergraph 1 1) 2
        [[0, 1], [2, 3], [1, 2]]).clusterIds := by
  intro h
  exact absurd (h.groups [0, 1] List.mem_cons_self 0 (by decide) 1 (by decide)) (by decide)

end OpenRoad.Par
