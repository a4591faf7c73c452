import OpenRoad.Linked
import OpenRoad.ParCoarsener

/-!
The clusters of the vertex groups. The groups of the vertices that are fixed in one block come first,
then the groups that are given. A group takes the greatest cluster id of its vertices, or a new one;
the vertices in no group get ids of their own.
-/

namespace OpenRoad.Par

open GroupLinks

variable {d k : Nat}

/-- `vertex_cluster_id_vec`, with `-1` for a vertex that has no cluster yet, and the next cluster
id. -/
structure Clustering where
  clusterIds : Nat → Int
  clusterId : Nat

namespace Clustering

/-- The greatest cluster id of the vertices of a group, `-1` if none has one. -/
def curClusterId (clusterIds : Nat → Int) (group : List Nat) : Int :=
  group.foldl (fun cur v => max cur (clusterIds v)) (-1)

def assign (clusterIds : Nat → Int) (group : List Nat) (c : Int) : Nat → Int :=
  group.foldl (fun ids v => Function.update ids v c) clusterIds

/-- One group. -/
def addGroup (s : Clustering) (group : List Nat) : Clustering :=
  let cur := curClusterId s.clusterIds group
  if cur = -1 then ⟨assign s.clusterIds group s.clusterId, s.clusterId + 1⟩
  else ⟨assign s.clusterIds group cur, s.clusterId⟩

/-- A remaining vertex gets a cluster of its own. -/
def addVertex (s : Clustering) (v : Nat) : Clustering :=
  if s.clusterIds v = -1 then ⟨Function.update s.clusterIds v s.clusterId, s.clusterId + 1⟩ else s

def start : Clustering := ⟨fun _ => -1, 0⟩

def ofGroups (groups : List (List Nat)) : Clustering := groups.foldl addGroup start

def addVertices (s : Clustering) (n : Nat) : Clustering := (List.range n).foldl addVertex s

end Clustering

/-- The vertices that are fixed, block after block. -/
def fixedGroups (H : Hypergraph d k) (numParts : Nat) : List (List Nat) :=
  ((List.range numParts).map fun b : Nat =>
    (List.range H.numVertices).filter fun v => H.fixed v = b).filter fun group => group ≠ []

/-- `ClusterBasedGroupInfo`, without the attributes of the clusters. -/
def clusterBasedGroupInfo (H : Hypergraph d k) (numParts : Nat) (groupAttr : List (List Nat)) :
    Clustering :=
  if groupAttr = [] ∧ H.fixedAttr.length = 0 then ⟨fun v => v, H.numVertices⟩
  else (Clustering.ofGroups (fixedGroups H numParts ++ groupAttr)).addVertices H.numVertices

namespace Clustering

/-! ### One group -/

theorem assign_apply (clusterIds : Nat → Int) (group : List Nat) (c : Int) (v : Nat) :
    assign clusterIds group c v = if v ∈ group then c else clusterIds v := by
  unfold assign
  induction group generalizing clusterIds with
  | nil => rfl
  | cons u group ih =>
      rw [List.foldl_cons, ih]
      by_cases hmem : v ∈ group
      · rw [if_pos hmem, if_pos (List.mem_cons_of_mem _ hmem)]
      · rw [if_neg hmem]
        by_cases huv : v = u
        · rw [huv, Function.update_self, if_pos List.mem_cons_self]
        · have hcons : v ∉ u :: group := fun h => (List.mem_cons.mp h).elim huv hmem
          rw [Function.update_of_ne huv, if_neg hcons]

/-- The id of a group is the greatest one of its vertices. -/
theorem curClusterId_spec (clusterIds : Nat → Int) (group : List Nat) :
    (∀ v ∈ group, clusterIds v ≤ curClusterId clusterIds group) ∧
      -1 ≤ curClusterId clusterIds group ∧
      (curClusterId clusterIds group = -1 ∨
        ∃ v ∈ group, clusterIds v = curClusterId clusterIds group) := by
  unfold curClusterId
  induction group using List.reverseRecOn with
  | nil => exact ⟨fun v hv => absurd hv List.not_mem_nil, le_refl _, Or.inl rfl⟩
  | append_singleton group u ih =>
      obtain ⟨hle, hlow, hcase⟩ := ih
      rw [List.foldl_append, List.foldl_cons, List.foldl_nil]
      refine ⟨fun v hv => ?_, le_trans hlow (le_max_left _ _), ?_⟩
      · rcases List.mem_append.mp hv with hv | hv
        · exact le_trans (hle v hv) (le_max_left _ _)
        · rw [List.mem_singleton.mp hv]
          exact le_max_right _ _
      · rcases max_choice (group.foldl (fun cur v => max cur (clusterIds v)) (-1))
          (clusterIds u) with heq | heq
        · rw [heq]
          rcases hcase with hnone | ⟨v, hv, hveq⟩
          · exact Or.inl hnone
          · exact Or.inr ⟨v, List.mem_append_left _ hv, hveq⟩
        · rw [heq]
          exact Or.inr ⟨u, List.mem_append_right _ (List.mem_singleton_self u), rfl⟩

/-- What a group does: its vertices get a new id if none of them had one, and otherwise the greatest
of their ids. -/
theorem addGroup_spec {s : Clustering} (hlow : ∀ v, -1 ≤ s.clusterIds v) (group : List Nat) :
    ∃ c : Int, (s.addGroup group).clusterIds = (fun v => if v ∈ group then c else s.clusterIds v) ∧
      ((c = s.clusterId ∧ (s.addGroup group).clusterId = s.clusterId + 1 ∧
          ∀ v ∈ group, s.clusterIds v = -1) ∨
        ((s.addGroup group).clusterId = s.clusterId ∧ 0 ≤ c ∧
          (∀ v ∈ group, s.clusterIds v ≤ c) ∧ ∃ v ∈ group, s.clusterIds v = c)) := by
  obtain ⟨hle, hcur, hcase⟩ := curClusterId_spec s.clusterIds group
  by_cases hnew : curClusterId s.clusterIds group = -1
  · have hstep : s.addGroup group = ⟨assign s.clusterIds group s.clusterId, s.clusterId + 1⟩ :=
      if_pos hnew
    rw [hstep]
    refine ⟨s.clusterId, funext (assign_apply _ _ _), Or.inl ⟨rfl, rfl, fun v hv => ?_⟩⟩
    have hv' := hle v hv
    rw [hnew] at hv'
    exact le_antisymm hv' (hlow v)
  · have hstep : s.addGroup group =
        ⟨assign s.clusterIds group (curClusterId s.clusterIds group), s.clusterId⟩ := if_neg hnew
    rw [hstep]
    refine ⟨_, funext (assign_apply _ _ _), Or.inr ⟨rfl, ?_, hle, hcase.resolve_left hnew⟩⟩
    omega

/-! ### All groups -/

/-- The vertices of the groups, and no others, have ids below the next one, and vertices with one id
are linked. -/
structure Labelled (groups : List (List Nat)) (s : Clustering) : Prop where
  low : ∀ v, -1 ≤ s.clusterIds v
  none_iff : ∀ v, s.clusterIds v = -1 ↔ ¬Covered groups v
  lt : ∀ v, s.clusterIds v < s.clusterId
  linked : ∀ u v, s.clusterIds u = s.clusterIds v → s.clusterIds u ≠ -1 → GroupLinks.Linked groups u v

theorem labelled_start : Labelled [] start where
  low _ := le_refl _
  none_iff v := iff_of_true rfl fun ⟨_, hg, _⟩ => by cases hg
  lt v := by
    change (-1 : Int) < ((0 : Nat) : Int)
    omega
  linked _ _ _ h := absurd rfl h

theorem covered_append_singleton {groups : List (List Nat)} {group : List Nat} {v : Nat} :
    Covered (groups ++ [group]) v ↔ Covered groups v ∨ v ∈ group := by
  unfold Covered
  simp only [List.mem_append, List.mem_singleton, or_and_right, exists_or, exists_eq_left]

theorem Labelled.addGroup {groups : List (List Nat)} {s : Clustering} (hs : Labelled groups s)
    (group : List Nat) : Labelled (groups ++ [group]) (s.addGroup group) := by
  obtain ⟨c, hids, hcase⟩ := addGroup_spec hs.low group
  have hc : 0 ≤ c ∧ c < (s.addGroup group).clusterId := by
    rcases hcase with ⟨rfl, hnext, -⟩ | ⟨hnext, hc, -, v, -, rfl⟩
    · rw [hnext]
      omega
    · rw [hnext]
      exact ⟨hc, hs.lt v⟩
  have hnext : s.clusterId ≤ (s.addGroup group).clusterId := by
    rcases hcase with ⟨-, hnext, -⟩ | ⟨hnext, -⟩ <;> omega
  have hsub : ∀ g ∈ groups, g ∈ groups ++ [group] := fun g hg => List.mem_append_left _ hg
  have hgroup : group ∈ groups ++ [group] := List.mem_append_right _ (List.mem_singleton_self _)
  -- an old vertex with the id of the group is linked to the group
  have hold : ∀ u ∉ group, s.clusterIds u = c → ∀ v ∈ group, GroupLinks.Linked (groups ++ [group]) u v := by
    intro u _ huc v hv
    rcases hcase with ⟨rfl, -⟩ | ⟨-, hc0, -, w, hw, hwc⟩
    · exact absurd huc (ne_of_lt (hs.lt u))
    · exact ((hs.linked u w (huc.trans hwc.symm) (by omega)).mono hsub).trans
        (linked_of_mem hgroup hw hv)
  constructor
  · intro v
    rw [hids]
    dsimp only
    split
    · omega
    · exact hs.low v
  · intro v
    rw [hids, covered_append_singleton]
    dsimp only
    split
    · rename_i hv
      exact iff_of_false (by omega) fun h => h (Or.inr hv)
    · rename_i hv
      rw [hs.none_iff, or_iff_left hv]
  · intro v
    rw [hids]
    dsimp only
    split
    · exact hc.2
    · have := hs.lt v
      omega
  · intro u v heq hne
    rw [hids] at heq hne
    dsimp only at heq hne
    by_cases hu : u ∈ group
    · by_cases hv : v ∈ group
      · exact linked_of_mem hgroup hu hv
      · rw [if_pos hu, if_neg hv] at heq
        exact (hold v hv heq.symm u hu).symm
    · rw [if_neg hu] at heq hne
      by_cases hv : v ∈ group
      · rw [if_pos hv] at heq
        exact hold u hu heq v hv
      · rw [if_neg hv] at heq
        exact (hs.linked u v heq hne).mono hsub

theorem labelled_ofGroups (groups : List (List Nat)) : Labelled groups (ofGroups groups) := by
  induction groups using List.reverseRecOn with
  | nil => exact labelled_start
  | append_singleton groups group ih =>
      have hstep := ih.addGroup group
      unfold ofGroups at hstep ⊢
      rw [List.foldl_append]
      exact hstep

theorem ofGroups_append (earlier later : List (List Nat)) :
    ofGroups (earlier ++ later) = later.foldl Clustering.addGroup (ofGroups earlier) :=
  List.foldl_append

theorem ofGroups_append_singleton (groups : List (List Nat)) (group : List Nat) :
    ofGroups (groups ++ [group]) = (ofGroups groups).addGroup group :=
  ofGroups_append groups [group]

/-! ### Later groups -/

/-- Ids never decrease. A vertex that ends with an old id got it from a vertex that had it before,
through shared groups. -/
theorem later_spec (earlier later : List (List Nat)) :
    (∀ v, (ofGroups earlier).clusterIds v ≤ (ofGroups (earlier ++ later)).clusterIds v) ∧
      (ofGroups earlier).clusterId ≤ (ofGroups (earlier ++ later)).clusterId ∧
      ∀ Q : Int → Nat → Prop, (∀ i u v, Q i u → Shares later u v → Q i v) →
        (∀ v, 0 ≤ (ofGroups earlier).clusterIds v → Q ((ofGroups earlier).clusterIds v) v) →
        ∀ v, 0 ≤ (ofGroups (earlier ++ later)).clusterIds v →
          (ofGroups (earlier ++ later)).clusterIds v < (ofGroups earlier).clusterId →
            Q ((ofGroups (earlier ++ later)).clusterIds v) v := by
  induction later using List.reverseRecOn with
  | nil =>
      rw [List.append_nil]
      exact ⟨fun v => le_refl _, le_refl _, fun Q _ hstart v hv _ => hstart v hv⟩
  | append_singleton later group ih =>
      obtain ⟨hmono, hnext, hkept⟩ := ih
      obtain ⟨c, hids, hcase⟩ := addGroup_spec (labelled_ofGroups (earlier ++ later)).low group
      rw [← List.append_assoc, ofGroups_append_singleton]
      refine ⟨fun v => ?_, ?_, ?_⟩
      · rw [hids]
        refine le_trans (hmono v) ?_
        dsimp only
        split
        · rename_i hv
          rcases hcase with ⟨hnew, -, hnone⟩ | ⟨-, -, hle, -⟩
          · rw [hnone v hv]
            omega
          · exact hle v hv
        · exact le_refl _
      · rcases hcase with ⟨-, hnext', -⟩ | ⟨hnext', -⟩ <;> omega
      · intro Q hclosed hstart v hv hlt
        have hclosed' : ∀ i u v, Q i u → Shares later u v → Q i v := by
          rintro i u v hu ⟨g, hg, hmem⟩
          exact hclosed i u v hu ⟨g, List.mem_append_left _ hg, hmem⟩
        have hold := hkept Q hclosed' hstart
        rw [hids] at hv hlt ⊢
        dsimp only at hv hlt ⊢
        by_cases hgroup : v ∈ group
        · rw [if_pos hgroup] at hv hlt ⊢
          rcases hcase with ⟨rfl, -⟩ | ⟨-, -, -, w, hw, rfl⟩
          · omega
          · exact hclosed _ w v (hold w hv hlt)
              ⟨group, List.mem_append_right _ (List.mem_singleton_self _), hw, hgroup⟩
        · rw [if_neg hgroup] at hv hlt ⊢
          exact hold v hv hlt

/-- Of unjoined groups, one more group changes no id and has one id. -/
theorem unjoined_addGroup {groups : List (List Nat)} {group : List Nat}
    (hunjoined : Unjoined (groups ++ [group]))
    (hconstant : ∀ g ∈ groups, ∀ u ∈ g, ∀ v ∈ g,
      (ofGroups groups).clusterIds u = (ofGroups groups).clusterIds v) :
    (∀ v, Covered groups v →
      (ofGroups (groups ++ [group])).clusterIds v = (ofGroups groups).clusterIds v) ∧
    ∀ g ∈ groups ++ [group], ∀ u ∈ g, ∀ v ∈ g,
      (ofGroups (groups ++ [group])).clusterIds u =
        (ofGroups (groups ++ [group])).clusterIds v := by
  have hs := labelled_ofGroups groups
  obtain ⟨c, hids, hcase⟩ := addGroup_spec hs.low group
  rw [ofGroups_append_singleton, hids]
  have hstable : ∀ v, Covered groups v →
      (if v ∈ group then c else (ofGroups groups).clusterIds v) =
        (ofGroups groups).clusterIds v := by
    intro v hv
    split
    · rename_i hgroup
      rcases hcase with ⟨-, -, hnone⟩ | ⟨-, hc, -, w, hw, rfl⟩
      · exact absurd hv ((hs.none_iff v).mp (hnone v hgroup))
      · have hcovered : Covered groups w := by
          by_contra hnot
          rw [(hs.none_iff w).mpr hnot] at hc
          omega
        have hlinked := hunjoined groups group [] rfl w hw v hgroup hcovered hv
        exact hlinked.label_eq hconstant
    · rfl
  refine ⟨hstable, fun g hg u hu v hv => ?_⟩
  dsimp only
  rcases List.mem_append.mp hg with hg | hg
  · rw [hstable u ⟨g, hg, hu⟩, hstable v ⟨g, hg, hv⟩]
    exact hconstant g hg u hu v hv
  · obtain rfl := List.mem_singleton.mp hg
    rw [if_pos hu, if_pos hv]

theorem unjoined_constant {groups : List (List Nat)} (hunjoined : Unjoined groups) :
    ∀ g ∈ groups, ∀ u ∈ g, ∀ v ∈ g,
      (ofGroups groups).clusterIds u = (ofGroups groups).clusterIds v := by
  induction groups using List.reverseRecOn with
  | nil => exact fun g hg => absurd hg List.not_mem_nil
  | append_singleton groups group ih =>
      exact (unjoined_addGroup hunjoined (ih hunjoined.of_append)).2

theorem unjoined_stable {earlier later : List (List Nat)}
    (hunjoined : Unjoined (earlier ++ later)) {v : Nat} (hv : Covered earlier v) :
    (ofGroups (earlier ++ later)).clusterIds v = (ofGroups earlier).clusterIds v := by
  induction later using List.reverseRecOn with
  | nil => rw [List.append_nil]
  | append_singleton later group ih =>
      rw [← List.append_assoc] at hunjoined ⊢
      have hv' : Covered (earlier ++ later) v := by
        obtain ⟨g, hg, hmem⟩ := hv
        exact ⟨g, List.mem_append_left _ hg, hmem⟩
      rw [(unjoined_addGroup hunjoined (unjoined_constant hunjoined.of_append)).1 v hv',
        ih hunjoined.of_append]

/-- Unjoined groups that are not empty use all ids. -/
theorem unjoined_used {groups : List (List Nat)} (hunjoined : Unjoined groups)
    (hne : [] ∉ groups) {c : Int} (hc : 0 ≤ c) (hlt : c < (ofGroups groups).clusterId) :
    ∃ v, Covered groups v ∧ (ofGroups groups).clusterIds v = c := by
  induction groups using List.reverseRecOn with
  | nil =>
      have hzero : (ofGroups []).clusterId = 0 := rfl
      rw [hzero] at hlt
      omega
  | append_singleton groups group ih =>
      have hstable := (unjoined_addGroup hunjoined (unjoined_constant hunjoined.of_append)).1
      obtain ⟨c', hids, hcase⟩ := addGroup_spec (labelled_ofGroups groups).low group
      have hold : c < (ofGroups groups).clusterId → ∃ v, Covered (groups ++ [group]) v ∧
          (ofGroups (groups ++ [group])).clusterIds v = c := by
        intro hlt'
        obtain ⟨v, hv, hvc⟩ := ih hunjoined.of_append
          (fun h => hne (List.mem_append_left _ h)) hlt'
        exact ⟨v, covered_append_singleton.mpr (Or.inl hv), (hstable v hv).trans hvc⟩
      rcases hcase with ⟨rfl, hnext, -⟩ | ⟨hnext, -⟩
      · rw [ofGroups_append_singleton, hnext] at hlt
        by_cases heq : c = (ofGroups groups).clusterId
        · obtain ⟨v, hv⟩ : ∃ v, v ∈ group := by
            apply List.exists_mem_of_ne_nil
            rintro rfl
            exact hne (List.mem_append_right _ (List.mem_singleton_self _))
          refine ⟨v, covered_append_singleton.mpr (Or.inr hv), ?_⟩
          rw [ofGroups_append_singleton, hids, heq]
          exact if_pos hv
        · exact hold (by omega)
      · rw [ofGroups_append_singleton, hnext] at hlt
        exact hold hlt

/-! ### The remaining vertices -/

/-- The vertices without an id get the next ids, one each. -/
theorem addVertices_spec (s : Clustering) (n : Nat) :
    (∀ v, s.clusterIds v ≠ -1 ∨ n ≤ v → (s.addVertices n).clusterIds v = s.clusterIds v) ∧
      s.clusterId ≤ (s.addVertices n).clusterId ∧
      (∀ v < n, s.clusterIds v = -1 → s.clusterId ≤ (s.addVertices n).clusterIds v ∧
        (s.addVertices n).clusterIds v < (s.addVertices n).clusterId) ∧
      (∀ u < n, ∀ v < n, s.clusterIds u = -1 → s.clusterIds v = -1 →
        (s.addVertices n).clusterIds u = (s.addVertices n).clusterIds v → u = v) ∧
      ∀ c : Int, s.clusterId ≤ c → c < (s.addVertices n).clusterId →
        ∃ v < n, (s.addVertices n).clusterIds v = c := by
  induction n with
  | zero =>
      refine ⟨fun _ _ => rfl, le_refl _, fun v hv => absurd hv (Nat.not_lt_zero v),
        fun u hu => absurd hu (Nat.not_lt_zero u), fun c hle hlt => ?_⟩
      have hsame : (s.addVertices 0).clusterId = s.clusterId := rfl
      rw [hsame] at hlt
      omega
  | succ n ih =>
      obtain ⟨hkept, hnext, hnew, hinj, hused⟩ := ih
      have hstep : s.addVertices (n + 1) = (s.addVertices n).addVertex n := by
        unfold addVertices
        rw [List.range_succ, List.foldl_append]
        rfl
      have hn := hkept n (Or.inr (le_refl n))
      by_cases hnone : s.clusterIds n = -1
      · have hadd : s.addVertices (n + 1) =
            ⟨Function.update (s.addVertices n).clusterIds n (s.addVertices n).clusterId,
              (s.addVertices n).clusterId + 1⟩ := hstep.trans (if_pos (hn.trans hnone))
        have hself : (s.addVertices (n + 1)).clusterIds n = (s.addVertices n).clusterId := by
          rw [hadd]
          exact Function.update_self ..
        have hother : ∀ v, v ≠ n →
            (s.addVertices (n + 1)).clusterIds v = (s.addVertices n).clusterIds v := by
          intro v hv
          rw [hadd]
          exact Function.update_of_ne hv _ _
        have hcount : (s.addVertices (n + 1)).clusterId = (s.addVertices n).clusterId + 1 := by
          rw [hadd]
        refine ⟨fun v hv => ?_, by omega, fun v hv hvnone => ?_, fun u hu v hv hun hvn heq => ?_,
          fun c hle hlt => ?_⟩
        · have hvn : v ≠ n := by
            rintro rfl
            rcases hv with hv | hv
            · exact hv hnone
            · omega
          rw [hother v hvn]
          exact hkept v (hv.imp_right Nat.le_of_succ_le)
        · by_cases hvn : v = n
          · rw [hvn, hself, hcount]
            omega
          · rw [hother v hvn, hcount]
            have := hnew v (by omega) hvnone
            omega
        · by_cases hu' : u = n
          · by_cases hv' : v = n
            · rw [hu', hv']
            · have := hnew v (by omega) hvn
              rw [hu', hself, hother v hv'] at heq
              omega
          · by_cases hv' : v = n
            · have := hnew u (by omega) hun
              rw [hv', hself, hother u hu'] at heq
              omega
            · rw [hother u hu', hother v hv'] at heq
              exact hinj u (by omega) v (by omega) hun hvn heq
        · by_cases heq : c = (s.addVertices n).clusterId
          · exact ⟨n, Nat.lt_succ_self n, hself.trans heq.symm⟩
          · obtain ⟨v, hv, hvc⟩ := hused c hle (by omega)
            exact ⟨v, Nat.lt_succ_of_lt hv, (hother v (Nat.ne_of_lt hv)).trans hvc⟩
      · have hadd : s.addVertices (n + 1) = s.addVertices n :=
          hstep.trans (if_neg (hn ▸ hnone))
        rw [hadd]
        refine ⟨fun v hv => ?_, hnext, fun v hv hvnone => ?_, fun u hu v hv hun hvn heq => ?_,
          fun c hle hlt => ?_⟩
        · exact hkept v (hv.imp_right Nat.le_of_succ_le)
        · exact hnew v (Nat.lt_of_le_of_ne (Nat.le_of_lt_succ hv) fun h => hnone (h ▸ hvnone)) hvnone
        · exact hinj u (Nat.lt_of_le_of_ne (Nat.le_of_lt_succ hu) fun h => hnone (h ▸ hun)) v
            (Nat.lt_of_le_of_ne (Nat.le_of_lt_succ hv) fun h => hnone (h ▸ hvn)) hun hvn heq
        · obtain ⟨v, hv, hvc⟩ := hused c hle hlt
          exact ⟨v, Nat.lt_succ_of_lt hv, hvc⟩

end Clustering

end OpenRoad.Par
