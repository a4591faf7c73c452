import OpenRoad.MemberLists
import OpenRoad.Run

/-!
`dbGroup`. Instances, module instances and child groups are in lists of their group and name it; the
power and ground nets of a group are vectors on both sides. A group that is destroyed takes its
members out while it goes along the links that this clears, and leaves its nets alone; a net that is
destroyed leaves its groups while it goes along the vector that they are erased from.
-/

namespace OpenRoad.Db
open ForwardList

/-- The groups of a block with what may be in them. An object that is destroyed keeps its fields
until its id is used again. -/
structure GroupBlock where
  groups : List Nat := []
  insts : List Nat := []
  modInsts : List Nat := []
  nets : List Nat := []
  groupName : Nat → String := fun _ => ""
  /-- `_insts`, and `_group_next` and `_group` of the instances -/
  instLists : MemberLists := {}
  /-- `_modinsts`, and `_group_next` and `_group` of the module instances -/
  modInstLists : MemberLists := {}
  /-- `_groups`, `_group_next` and `_parent_group` -/
  groupLists : MemberLists := {}
  powerNets : Nat → List Nat := fun _ => []
  groundNets : Nat → List Nat := fun _ => []
  /-- `_groups` of the nets -/
  netGroups : Nat → List Nat := fun _ => []

namespace GroupBlock

variable (B : GroupBlock) (g i n : Nat)

/-! ### Members -/

/-- `dbGroup::addInst` -/
def addInst : Option GroupBlock :=
  (B.instLists.add g i (B.insts.length + 1)).map fun s => { B with instLists := s }

/-- `dbGroup::removeInst` -/
def removeInst : Option GroupBlock :=
  (B.instLists.remove g i (B.insts.length + 1)).map fun s => { B with instLists := s }

/-- `dbGroup::addModInst` -/
def addModInst : Option GroupBlock :=
  (B.modInstLists.add g i (B.modInsts.length + 1)).map fun s => { B with modInstLists := s }

/-- `dbGroup::removeModInst` -/
def removeModInst : Option GroupBlock :=
  (B.modInstLists.remove g i (B.modInsts.length + 1)).map fun s => { B with modInstLists := s }

/-- `dbGroup::addGroup` -/
def addGroup : Option GroupBlock :=
  (B.groupLists.add g i (B.groups.length + 1)).map fun s => { B with groupLists := s }

/-- `dbGroup::removeGroup` -/
def removeGroup : Option GroupBlock :=
  (B.groupLists.remove g i (B.groups.length + 1)).map fun s => { B with groupLists := s }

/-! ### Nets -/

/-- Set the nets of a group. -/
def setNets (power ground : List Nat) : GroupBlock :=
  { B with
    powerNets := Function.update B.powerNets g power
    groundNets := Function.update B.groundNets g ground }

/-- `dbGroup::addPowerNet` -/
def addPowerNet : GroupBlock :=
  if n ∈ B.powerNets g then B
  else if n ∈ B.groundNets g then B.setNets g (B.powerNets g ++ [n]) ((B.groundNets g).erase n)
  else { B.setNets g (B.powerNets g ++ [n]) (B.groundNets g) with
    netGroups := Function.update B.netGroups n (B.netGroups n ++ [g]) }

/-- `dbGroup::addGroundNet` -/
def addGroundNet : GroupBlock :=
  if n ∈ B.groundNets g then B
  else if n ∈ B.powerNets g then B.setNets g ((B.powerNets g).erase n) (B.groundNets g ++ [n])
  else { B.setNets g (B.powerNets g) (B.groundNets g ++ [n]) with
    netGroups := Function.update B.netGroups n (B.netGroups n ++ [g]) }

/-- `dbGroup::removeNet`; `erase` takes out the first one that is equal, if there is one. -/
def removeNet : GroupBlock :=
  if n ∈ B.powerNets g then
    { B.setNets g ((B.powerNets g).erase n) (B.groundNets g) with
      netGroups := Function.update B.netGroups n ((B.netGroups n).erase g) }
  else if n ∈ B.groundNets g then
    { B.setNets g (B.powerNets g) ((B.groundNets g).erase n) with
      netGroups := Function.update B.netGroups n ((B.netGroups n).erase g) }
  else B

/-! ### Create and destroy -/

/-- `dbGroup::create` of a group that gets the id `g`; nothing is created when the name is taken. -/
def groupCreate (parent : Option Nat) (name : String) : Option GroupBlock :=
  if ∃ g' ∈ B.groups, B.groupName g' = name then some B
  else
    let B : GroupBlock := { B with
      groups := g :: B.groups
      groupName := Function.update B.groupName g name
      instLists := B.instLists.newOwner g
      modInstLists := B.modInstLists.newOwner g
      groupLists := (B.groupLists.clear g).newOwner g
      powerNets := Function.update B.powerNets g []
      groundNets := Function.update B.groundNets g [] }
    match parent with
    | none => some B
    | some p => B.addGroup p g

/-- `dbGroup::destroy` -/
def groupDestroy : Option GroupBlock := do
  let s ← MemberLists.removeFrom (B.insts.length + 1) B.instLists g (B.instLists.head g)
    (B.insts.length + 1)
  let B := { B with instLists := s }
  let s ← MemberLists.removeFrom (B.modInsts.length + 1) B.modInstLists g (B.modInstLists.head g)
    (B.modInsts.length + 1)
  let B := { B with modInstLists := s }
  let s ← MemberLists.removeFrom (B.groups.length + 1) B.groupLists g (B.groupLists.head g)
    (B.groups.length + 1)
  let B := { B with groupLists := s }
  let B ← if B.groupLists.owner g ≠ 0 then B.removeGroup (B.groupLists.owner g) g else some B
  pure { B with groups := B.groups.filter (· ≠ g) }

/-- What `dbInst::create` sets of a new instance. -/
def instCreate : GroupBlock := { B with insts := i :: B.insts, instLists := B.instLists.clear i }

/-- What `dbInst::destroy` does to the groups. -/
def instDestroy : Option GroupBlock := do
  let B ← if B.instLists.owner i ≠ 0 then B.removeInst (B.instLists.owner i) i else some B
  pure { B with insts := B.insts.filter (· ≠ i) }

/-- What `dbModInst::create` sets of a new module instance. -/
def modInstCreate : GroupBlock :=
  { B with modInsts := i :: B.modInsts, modInstLists := B.modInstLists.clear i }

/-- What `dbModInst::destroy` does to the groups. -/
def modInstDestroy : Option GroupBlock := do
  let B ← if B.modInstLists.owner i ≠ 0 then B.removeModInst (B.modInstLists.owner i) i else some B
  pure { B with modInsts := B.modInsts.filter (· ≠ i) }

/-- What `dbNet::create` sets of a new net. -/
def netCreate : GroupBlock :=
  { B with nets := n :: B.nets, netGroups := Function.update B.netGroups n [] }

/-- The loop of `dbNet::destroy` over `_groups`, whose end is found before the first pass: `k` passes
from the index `at` on. Past the end of the vector, nothing is defined. -/
def leaveGroups (B : GroupBlock) (n : Nat) : Nat → Nat → Option GroupBlock
  | 0, _ => some B
  | k + 1, idx => (B.netGroups n)[idx]?.bind fun g => leaveGroups (B.removeNet g n) n k (idx + 1)

/-- What `dbNet::destroy` does to the groups. -/
def netDestroy : Option GroupBlock :=
  (B.leaveGroups n (B.netGroups n).length 0).map fun B => { B with nets := B.nets.filter (· ≠ n) }

end GroupBlock

/-! ### Operations -/

/-- The operations on groups and on what may be in them. -/
inductive GroupOp where
  | groupCreate (parent : Option Nat) (name : String) (g : Nat)
  | groupDestroy (g : Nat)
  | addInst (g i : Nat)
  | removeInst (g i : Nat)
  | addModInst (g i : Nat)
  | removeModInst (g i : Nat)
  | addGroup (g child : Nat)
  | removeGroup (g child : Nat)
  | addPowerNet (g n : Nat)
  | addGroundNet (g n : Nat)
  | removeNet (g n : Nat)
  | instCreate (i : Nat)
  | instDestroy (i : Nat)
  | modInstCreate (i : Nat)
  | modInstDestroy (i : Nat)
  | netCreate (n : Nat)
  | netDestroy (n : Nat)
  deriving DecidableEq

namespace GroupBlock

def step (B : GroupBlock) : GroupOp → Option GroupBlock
  | .groupCreate parent name g => B.groupCreate g parent name
  | .groupDestroy g => B.groupDestroy g
  | .addInst g i => B.addInst g i
  | .removeInst g i => B.removeInst g i
  | .addModInst g i => B.addModInst g i
  | .removeModInst g i => B.removeModInst g i
  | .addGroup g child => B.addGroup g child
  | .removeGroup g child => B.removeGroup g child
  | .addPowerNet g n => some (B.addPowerNet g n)
  | .addGroundNet g n => some (B.addGroundNet g n)
  | .removeNet g n => some (B.removeNet g n)
  | .instCreate i => some (B.instCreate i)
  | .instDestroy i => B.instDestroy i
  | .modInstCreate i => some (B.modInstCreate i)
  | .modInstDestroy i => B.modInstDestroy i
  | .netCreate n => some (B.netCreate n)
  | .netDestroy n => B.netDestroy n

/-- The objects given are there, and an id that is given out is free. -/
def Valid (B : GroupBlock) : GroupOp → Prop
  | .groupCreate parent _ g => g ≠ 0 ∧ g ∉ B.groups ∧ ∀ p ∈ parent, p ∈ B.groups
  | .groupDestroy g => g ∈ B.groups
  | .addInst g i | .removeInst g i => g ∈ B.groups ∧ i ∈ B.insts
  | .addModInst g i | .removeModInst g i => g ∈ B.groups ∧ i ∈ B.modInsts
  | .addGroup g child | .removeGroup g child => g ∈ B.groups ∧ child ∈ B.groups
  | .addPowerNet g n | .addGroundNet g n | .removeNet g n => g ∈ B.groups ∧ n ∈ B.nets
  | .instCreate i => i ≠ 0 ∧ i ∉ B.insts
  | .instDestroy i => i ∈ B.insts
  | .modInstCreate i => i ≠ 0 ∧ i ∉ B.modInsts
  | .modInstDestroy i => i ∈ B.modInsts
  | .netCreate n => n ∉ B.nets
  | .netDestroy n => n ∈ B.nets

/-- A group that is destroyed has at most one member of each kind and no nets; a net that is destroyed
is in at most one group. -/
def Spares (B : GroupBlock) : GroupOp → Prop
  | .groupDestroy g => (B.insts.filter (B.instLists.owner · = g)).length ≤ 1 ∧
      (B.modInsts.filter (B.modInstLists.owner · = g)).length ≤ 1 ∧
      (B.groups.filter (B.groupLists.owner · = g)).length ≤ 1 ∧
      B.powerNets g = [] ∧ B.groundNets g = []
  | .netDestroy n => (B.netGroups n).length ≤ 1
  | _ => True

instance (B : GroupBlock) (op : GroupOp) : Decidable (B.Valid op) :=
  match op with
  | .groupCreate _ _ _ => inferInstanceAs (Decidable (_ ∧ _ ∧ ∀ p ∈ _, _))
  | .addInst _ _ | .removeInst _ _ | .addModInst _ _ | .removeModInst _ _ | .addGroup _ _
  | .removeGroup _ _ | .addPowerNet _ _ | .addGroundNet _ _ | .removeNet _ _ =>
      inferInstanceAs (Decidable (_ ∧ _))
  | .instCreate _ | .modInstCreate _ => inferInstanceAs (Decidable (_ ∧ _))
  | .netCreate _ => inferInstanceAs (Decidable (_ ∉ _))
  | .groupDestroy _ | .instDestroy _ | .modInstDestroy _ | .netDestroy _ =>
      inferInstanceAs (Decidable (_ ∈ _))

instance (B : GroupBlock) (op : GroupOp) : Decidable (B.Spares op) :=
  match op with
  | .groupDestroy _ => inferInstanceAs (Decidable (_ ∧ _ ∧ _ ∧ _ ∧ _))
  | .netDestroy _ => inferInstanceAs (Decidable (_ ≤ _))
  | .groupCreate _ _ _ | .addInst _ _ | .removeInst _ _ | .addModInst _ _ | .removeModInst _ _
  | .addGroup _ _ | .removeGroup _ _ | .addPowerNet _ _ | .addGroundNet _ _ | .removeNet _ _
  | .instCreate _ | .instDestroy _ | .modInstCreate _ | .modInstDestroy _ | .netCreate _ =>
      inferInstanceAs (Decidable True)

end GroupBlock

end OpenRoad.Db

/-!
The members of groups are consistent on both sides in every run that destroys no group with several
members of a kind or with nets, and no net of several groups.
-/

namespace OpenRoad.Db
open ForwardList

/-! ### Nets -/

/-- The nets of each group, power and ground together, are those that name it. -/
structure NetsOk (groups nets : List Nat) (members netGroups : Nat → List Nat) : Prop where
  once : ∀ g ∈ groups, (members g).Nodup
  mem : ∀ g ∈ groups, ∀ n, n ∈ members g ↔ n ∈ nets ∧ g ∈ netGroups n
  groups : ∀ n ∈ nets, ∀ g ∈ netGroups n, g ∈ groups
  groups_once : ∀ n ∈ nets, (netGroups n).Nodup

namespace NetsOk

variable {groups nets : List Nat} {members members' netGroups : Nat → List Nat} {g n : Nat}

theorem of_perm (h : NetsOk groups nets members netGroups)
    (hperm : ∀ g ∈ groups, (members' g).Perm (members g)) : NetsOk groups nets members' netGroups where
  once g hg := (hperm g hg).nodup_iff.mpr (h.once g hg)
  mem g hg n := (hperm g hg).mem_iff.trans (h.mem g hg n)
  groups := h.groups
  groups_once := h.groups_once

/-- The net is added to the group on both sides. -/
theorem insert (h : NetsOk groups nets members netGroups) (hg : g ∈ groups) (hn : n ∈ nets)
    (hnot : n ∉ members g) (hself : (members' g).Perm (n :: members g))
    (hother : ∀ g' ∈ groups, g' ≠ g → members' g' = members g') :
    NetsOk groups nets members' (Function.update netGroups n (netGroups n ++ [g])) := by
  have hfresh : g ∉ netGroups n := fun hin => hnot ((h.mem g hg n).mpr ⟨hn, hin⟩)
  constructor
  · intro g' hg'
    by_cases hne : g' = g
    · subst hne
      exact hself.nodup_iff.mpr (List.nodup_cons.mpr ⟨hnot, h.once g' hg'⟩)
    · rw [hother g' hg' hne]
      exact h.once g' hg'
  · intro g' hg' a
    by_cases hne : g' = g
    · subst hne
      rw [hself.mem_iff]
      by_cases han : a = n
      · subst han
        rw [Function.update_self]
        exact iff_of_true List.mem_cons_self ⟨hn, List.mem_append_right _ (List.mem_singleton_self _)⟩
      · rw [Function.update_of_ne han, ← h.mem g' hg' a]
        simp [han]
    · rw [hother g' hg' hne, h.mem g' hg' a]
      by_cases han : a = n
      · subst han
        rw [Function.update_self]
        simp [hne]
      · rw [Function.update_of_ne han]
  · intro a ha g' hg'
    by_cases han : a = n
    · subst han
      rw [Function.update_self] at hg'
      rcases List.mem_append.mp hg' with hg' | hg'
      · exact h.groups a ha g' hg'
      · exact List.mem_singleton.mp hg' ▸ hg
    · rw [Function.update_of_ne han] at hg'
      exact h.groups a ha g' hg'
  · intro a ha
    by_cases han : a = n
    · subst han
      rw [Function.update_self]
      refine List.Nodup.append (h.groups_once a ha) (List.nodup_singleton g) ?_
      intro g' hg' hsingle
      exact hfresh (List.mem_singleton.mp hsingle ▸ hg')
    · rw [Function.update_of_ne han]
      exact h.groups_once a ha

/-- The net is taken out of the group on both sides. -/
theorem erase (h : NetsOk groups nets members netGroups) (hg : g ∈ groups)
    (hself : (members g).Perm (n :: members' g))
    (hother : ∀ g' ∈ groups, g' ≠ g → members' g' = members g') :
    NetsOk groups nets members' (Function.update netGroups n ((netGroups n).erase g)) := by
  have hnodup := hself.nodup_iff.mp (h.once g hg)
  obtain ⟨hnot, hrest⟩ := List.nodup_cons.mp hnodup
  have hn : n ∈ nets := ((h.mem g hg n).mp (hself.mem_iff.mpr List.mem_cons_self)).1
  constructor
  · intro g' hg'
    by_cases hne : g' = g
    · subst hne
      exact hrest
    · rw [hother g' hg' hne]
      exact h.once g' hg'
  · intro g' hg' a
    by_cases hne : g' = g
    · subst hne
      by_cases han : a = n
      · subst han
        rw [Function.update_self]
        exact iff_of_false hnot fun hall => (h.groups_once a hn).not_mem_erase hall.2
      · rw [Function.update_of_ne han, ← h.mem g' hg' a, hself.mem_iff]
        simp [han]
    · rw [hother g' hg' hne, h.mem g' hg' a]
      by_cases han : a = n
      · subst han
        rw [Function.update_self, List.mem_erase_of_ne hne]
      · rw [Function.update_of_ne han]
  · intro a ha g' hg'
    by_cases han : a = n
    · subst han
      rw [Function.update_self] at hg'
      exact h.groups a ha g' (List.mem_of_mem_erase hg')
    · rw [Function.update_of_ne han] at hg'
      exact h.groups a ha g' hg'
  · intro a ha
    by_cases han : a = n
    · subst han
      rw [Function.update_self]
      exact (h.groups_once a ha).erase g
    · rw [Function.update_of_ne han]
      exact h.groups_once a ha

theorem newGroup (h : NetsOk groups nets members netGroups) (hg : g ∉ groups) (hself : members' g = [])
    (hother : ∀ g' ∈ groups, members' g' = members g') :
    NetsOk (g :: groups) nets members' netGroups := by
  constructor
  · intro g' hg'
    rcases List.mem_cons.mp hg' with rfl | hg'
    · rw [hself]
      exact List.nodup_nil
    · rw [hother g' hg']
      exact h.once g' hg'
  · intro g' hg' n
    rcases List.mem_cons.mp hg' with rfl | hg'
    · rw [hself]
      exact iff_of_false List.not_mem_nil fun hall => hg (h.groups n hall.1 g' hall.2)
    · rw [hother g' hg']
      exact h.mem g' hg' n
  · exact fun n hn g' hg' => List.mem_cons_of_mem _ (h.groups n hn g' hg')
  · exact h.groups_once

theorem dropGroup (h : NetsOk groups nets members netGroups) (hg : g ∈ groups) (hself : members g = []) :
    NetsOk (groups.filter (· ≠ g)) nets members netGroups where
  once g' hg' := h.once g' (List.mem_of_mem_filter hg')
  mem g' hg' := h.mem g' (List.mem_of_mem_filter hg')
  groups n hn g' hg' := by
    refine List.mem_filter.mpr ⟨h.groups n hn g' hg', decide_eq_true ?_⟩
    rintro rfl
    have hin := (h.mem g' hg n).mpr ⟨hn, hg'⟩
    rw [hself] at hin
    cases hin
  groups_once := h.groups_once

theorem newNet (h : NetsOk groups nets members netGroups) (hn : n ∉ nets) :
    NetsOk groups (n :: nets) members (Function.update netGroups n []) := by
  have hold : ∀ a ∈ nets, Function.update netGroups n [] a = netGroups a := by
    intro a ha
    refine Function.update_of_ne ?_ _ _
    rintro rfl
    exact hn ha
  constructor
  · exact h.once
  · intro g hg a
    rw [h.mem g hg a]
    by_cases han : a = n
    · subst han
      rw [Function.update_self]
      exact iff_of_false (fun hall => hn hall.1) fun hall => List.not_mem_nil hall.2
    · rw [Function.update_of_ne han]
      simp [han]
  · intro a ha g hg
    rcases List.mem_cons.mp ha with rfl | ha
    · rw [Function.update_self] at hg
      cases hg
    · rw [hold a ha] at hg
      exact h.groups a ha g hg
  · intro a ha
    rcases List.mem_cons.mp ha with rfl | ha
    · rw [Function.update_self]
      exact List.nodup_nil
    · rw [hold a ha]
      exact h.groups_once a ha

theorem dropNet (h : NetsOk groups nets members netGroups) (hself : netGroups n = []) :
    NetsOk groups (nets.filter (· ≠ n)) members netGroups where
  once := h.once
  mem g hg a := by
    rw [h.mem g hg a, List.mem_filter]
    constructor
    · rintro ⟨ha, hin⟩
      refine ⟨⟨ha, decide_eq_true ?_⟩, hin⟩
      rintro rfl
      rw [hself] at hin
      cases hin
    · exact fun hall => ⟨hall.1.1, hall.2⟩
  groups a ha := h.groups a (List.mem_of_mem_filter ha)
  groups_once a ha := h.groups_once a (List.mem_of_mem_filter ha)

end NetsOk

/-! ### The block -/

namespace GroupBlock

/-- The power and ground nets of a group. -/
def groupNets (B : GroupBlock) (g : Nat) : List Nat := B.powerNets g ++ B.groundNets g

/-- Members are in the list of a group exactly when they name it, nets are in a group once exactly when
the group is among theirs, and nothing names an object that is not there. -/
structure Consistent (B : GroupBlock) : Prop where
  insts : B.instLists.Ok B.groups B.insts
  modInsts : B.modInstLists.Ok B.groups B.modInsts
  children : B.groupLists.Ok B.groups B.groups
  nets : NetsOk B.groups B.nets B.groupNets B.netGroups

variable {B : GroupBlock} {g i n : Nat}

theorem consistent_init : ({} : GroupBlock).Consistent where
  insts := MemberLists.ok_nil
  modInsts := MemberLists.ok_nil
  children := MemberLists.ok_nil
  nets := ⟨nofun, nofun, nofun, nofun⟩

/-! ### Members in and out -/

theorem Consistent.addInst (h : B.Consistent) (hg : g ∈ B.groups) (hi : i ∈ B.insts) :
    ∃ B', B.addInst g i = some B' ∧ B'.Consistent := by
  obtain ⟨s, hadd, hok⟩ := h.insts.add hi hg (Nat.lt_succ_self B.insts.length)
  refine ⟨_, by rw [GroupBlock.addInst, hadd, Option.map_some], ?_⟩
  exact ⟨hok, h.modInsts, h.children, h.nets⟩

theorem Consistent.removeInst (h : B.Consistent) (hg : g ∈ B.groups) (hi : i ∈ B.insts) :
    ∃ B', B.removeInst g i = some B' ∧ B'.Consistent := by
  obtain ⟨s, hremove, hok⟩ := h.insts.remove_any hi hg (Nat.lt_succ_self B.insts.length)
  refine ⟨_, by rw [GroupBlock.removeInst, hremove, Option.map_some], ?_⟩
  exact ⟨hok, h.modInsts, h.children, h.nets⟩

theorem Consistent.addModInst (h : B.Consistent) (hg : g ∈ B.groups) (hi : i ∈ B.modInsts) :
    ∃ B', B.addModInst g i = some B' ∧ B'.Consistent := by
  obtain ⟨s, hadd, hok⟩ := h.modInsts.add hi hg (Nat.lt_succ_self B.modInsts.length)
  refine ⟨_, by rw [GroupBlock.addModInst, hadd, Option.map_some], ?_⟩
  exact ⟨h.insts, hok, h.children, h.nets⟩

theorem Consistent.removeModInst (h : B.Consistent) (hg : g ∈ B.groups) (hi : i ∈ B.modInsts) :
    ∃ B', B.removeModInst g i = some B' ∧ B'.Consistent := by
  obtain ⟨s, hremove, hok⟩ := h.modInsts.remove_any hi hg (Nat.lt_succ_self B.modInsts.length)
  refine ⟨_, by rw [GroupBlock.removeModInst, hremove, Option.map_some], ?_⟩
  exact ⟨h.insts, hok, h.children, h.nets⟩

theorem Consistent.addGroup (h : B.Consistent) (hg : g ∈ B.groups) (hi : i ∈ B.groups) :
    ∃ B', B.addGroup g i = some B' ∧ B'.Consistent := by
  obtain ⟨s, hadd, hok⟩ := h.children.add hi hg (Nat.lt_succ_self B.groups.length)
  refine ⟨_, by rw [GroupBlock.addGroup, hadd, Option.map_some], ?_⟩
  exact ⟨h.insts, h.modInsts, hok, h.nets⟩

theorem Consistent.removeGroup (h : B.Consistent) (hg : g ∈ B.groups) (hi : i ∈ B.groups) :
    ∃ B', B.removeGroup g i = some B' ∧ B'.Consistent := by
  obtain ⟨s, hremove, hok⟩ := h.children.remove_any hi hg (Nat.lt_succ_self B.groups.length)
  refine ⟨_, by rw [GroupBlock.removeGroup, hremove, Option.map_some], ?_⟩
  exact ⟨h.insts, h.modInsts, hok, h.nets⟩

/-! ### Nets in and out -/

theorem groupNets_setNets (power ground : List Nat) :
    (B.setNets g power ground).groupNets g = power ++ ground := by
  change Function.update B.powerNets g power g ++ Function.update B.groundNets g ground g = _
  rw [Function.update_self, Function.update_self]

theorem groupNets_setNets_of_ne {g' : Nat} (hne : g' ≠ g) (power ground : List Nat) :
    (B.setNets g power ground).groupNets g' = B.groupNets g' := by
  change Function.update B.powerNets g power g' ++ Function.update B.groundNets g ground g' = _
  rw [Function.update_of_ne hne, Function.update_of_ne hne, groupNets]

/-- A net that goes from one list of the group to the other is in it all the same. -/
theorem Consistent.moveNet (h : B.Consistent) {power ground : List Nat}
    (hperm : (power ++ ground).Perm (B.groupNets g)) : (B.setNets g power ground).Consistent := by
  refine ⟨h.insts, h.modInsts, h.children, h.nets.of_perm fun g' _ => ?_⟩
  by_cases hne : g' = g
  · rw [hne, groupNets_setNets]
    exact hperm
  · rw [groupNets_setNets_of_ne hne]

theorem Consistent.insertNet (h : B.Consistent) (hg : g ∈ B.groups) (hn : n ∈ B.nets)
    (hnot : n ∉ B.groupNets g) {power ground : List Nat}
    (hperm : (power ++ ground).Perm (n :: B.groupNets g)) :
    { B.setNets g power ground with
      netGroups := Function.update B.netGroups n (B.netGroups n ++ [g]) }.Consistent := by
  refine ⟨h.insts, h.modInsts, h.children, h.nets.insert hg hn hnot ?_ ?_⟩
  · exact (List.Perm.of_eq (groupNets_setNets power ground)).trans hperm
  · exact fun g' _ hne => groupNets_setNets_of_ne hne power ground

theorem Consistent.eraseNet (h : B.Consistent) (hg : g ∈ B.groups) {power ground : List Nat}
    (hperm : (B.groupNets g).Perm (n :: (power ++ ground))) :
    { B.setNets g power ground with
      netGroups := Function.update B.netGroups n ((B.netGroups n).erase g) }.Consistent := by
  refine ⟨h.insts, h.modInsts, h.children, h.nets.erase hg ?_ ?_⟩
  · exact hperm.trans (List.Perm.of_eq (congrArg (n :: ·) (groupNets_setNets power ground).symm))
  · exact fun g' _ hne => groupNets_setNets_of_ne hne power ground

theorem Consistent.addPowerNet (h : B.Consistent) (hg : g ∈ B.groups) (hn : n ∈ B.nets) :
    (B.addPowerNet g n).Consistent := by
  rw [GroupBlock.addPowerNet]
  split_ifs with hpower hground
  · exact h
  · refine h.moveNet ?_
    rw [List.append_assoc, groupNets]
    exact (List.perm_cons_erase hground).symm.append_left _
  · refine h.insertNet hg hn (List.not_mem_append hpower hground) ?_
    rw [List.append_assoc]
    exact List.perm_middle

theorem Consistent.addGroundNet (h : B.Consistent) (hg : g ∈ B.groups) (hn : n ∈ B.nets) :
    (B.addGroundNet g n).Consistent := by
  rw [GroupBlock.addGroundNet]
  split_ifs with hground hpower
  · exact h
  · refine h.moveNet ?_
    rw [← List.append_assoc, groupNets]
    refine (List.perm_append_singleton n _).trans ?_
    exact (List.perm_cons_erase hpower).symm.append_right _
  · refine h.insertNet hg hn (List.not_mem_append hpower hground) ?_
    rw [← List.append_assoc]
    exact List.perm_append_singleton n _

theorem Consistent.removeNet (h : B.Consistent) (hg : g ∈ B.groups) :
    (B.removeNet g n).Consistent := by
  rw [GroupBlock.removeNet]
  split_ifs with hpower hground
  · exact h.eraseNet hg ((List.perm_cons_erase hpower).append_right _)
  · refine h.eraseNet hg ?_
    exact ((List.perm_cons_erase hground).append_left _).trans List.perm_middle
  · exact h

/-! ### Objects that come and go -/

/-- The block with a new group in it. -/
def newGroup (B : GroupBlock) (g : Nat) (name : String) : GroupBlock :=
  { B with
    groups := g :: B.groups
    groupName := Function.update B.groupName g name
    instLists := B.instLists.newOwner g
    modInstLists := B.modInstLists.newOwner g
    groupLists := (B.groupLists.clear g).newOwner g
    powerNets := Function.update B.powerNets g []
    groundNets := Function.update B.groundNets g [] }

theorem groupCreate_eq (parent : Option Nat) (name : String) :
    B.groupCreate g parent name =
      if ∃ g' ∈ B.groups, B.groupName g' = name then some B
      else match parent with
        | none => some (B.newGroup g name)
        | some p => (B.newGroup g name).addGroup p g := rfl

theorem Consistent.newGroup (h : B.Consistent) (hg0 : g ≠ 0) (hg : g ∉ B.groups) (name : String) :
    (B.newGroup g name).Consistent := by
  refine ⟨h.insts.newOwner hg hg0, h.modInsts.newOwner hg hg0,
    (h.children.newMember hg hg0).newOwner hg hg0, h.nets.newGroup hg ?_ fun g' hg' => ?_⟩
  · exact groupNets_setNets (B := B) [] []
  · refine groupNets_setNets_of_ne (B := B) ?_ [] []
    rintro rfl
    exact hg hg'

theorem Consistent.groupCreate (h : B.Consistent) {parent : Option Nat} {name : String} (hg0 : g ≠ 0)
    (hg : g ∉ B.groups) (hparent : ∀ p ∈ parent, p ∈ B.groups) :
    ∃ B', B.groupCreate g parent name = some B' ∧ B'.Consistent := by
  have hnew := h.newGroup hg0 hg name
  rw [groupCreate_eq]
  split_ifs with hname
  · exact ⟨B, rfl, h⟩
  · cases parent with
    | none => exact ⟨_, rfl, hnew⟩
    | some p =>
        exact hnew.addGroup (List.mem_cons_of_mem _ (hparent p rfl)) List.mem_cons_self

/-- At most one member of a list passes the filter. -/
theorem eq_of_filter_length {l : List Nat} {p : Nat → Bool} (h : (l.filter p).length ≤ 1) {t u : Nat}
    (ht : t ∈ l) (hu : u ∈ l) (hpt : p t = true) (hpu : p u = true) : t = u := by
  obtain ⟨a, ha⟩ | hnil : (∃ a, l.filter p = [a]) ∨ l.filter p = [] := by
    rcases hl : l.filter p with _ | ⟨a, _ | ⟨b, rest⟩⟩
    · exact Or.inr rfl
    · exact Or.inl ⟨a, rfl⟩
    · rw [hl] at h
      exact absurd h (by simp)
  · have ht' := List.mem_filter.mpr ⟨ht, hpt⟩
    have hu' := List.mem_filter.mpr ⟨hu, hpu⟩
    rw [ha] at ht' hu'
    exact (List.mem_singleton.mp ht').trans (List.mem_singleton.mp hu').symm
  · exact absurd (hnil ▸ List.mem_filter.mpr ⟨ht, hpt⟩) List.not_mem_nil

/-- The members of a group that has at most one are taken out. -/
theorem removeFrom_spare {owners members : List Nat} {s : MemberLists} (h : s.Ok owners members)
    (hg : g ∈ owners) (hone : (members.filter (s.owner · = g)).length ≤ 1) :
    ∃ s', MemberLists.removeFrom (members.length + 1) s g (s.head g) (members.length + 1) = some s' ∧
      s'.Ok owners members ∧ ∀ t ∈ members, s'.owner t ≠ g := by
  obtain ⟨s', hremove, hok, hno, -⟩ := h.removeFrom hg
    (fun t ht u hu htg hug =>
      eq_of_filter_length hone ht hu (decide_eq_true htg) (decide_eq_true hug))
    (Nat.lt_succ_self members.length)
  exact ⟨s', hremove, hok, hno⟩

theorem Consistent.groupDestroy (h : B.Consistent) (hg : g ∈ B.groups)
    (hspares : B.Spares (.groupDestroy g)) :
    ∃ B', B.groupDestroy g = some B' ∧ B'.Consistent := by
  obtain ⟨hinsts, hmodInsts, hgroups, hpower, hground⟩ := hspares
  obtain ⟨s, hs, hsok, hsno⟩ := removeFrom_spare h.insts hg hinsts
  obtain ⟨m, hm, hmok, hmno⟩ := removeFrom_spare h.modInsts hg hmodInsts
  obtain ⟨c, hc, hcok, hcno⟩ := removeFrom_spare h.children hg hgroups
  obtain ⟨c', hleave, hsame, hcok', howner⟩ := hcok.leave hg (Nat.lt_succ_self B.groups.length)
  have hfree : c'.owner g = 0 := by rw [howner, Function.update_self]
  have hcno' : ∀ t ∈ B.groups, c'.owner t ≠ g := by
    intro t ht
    rw [howner]
    by_cases htg : t = g
    · rw [htg, Function.update_self]
      exact fun h0 => h.insts.owners_ne_zero (h0 ▸ hg)
    · rw [Function.update_of_ne htg]
      exact hcno t ht
  refine ⟨{ B with
    instLists := s, modInstLists := m, groupLists := c', groups := B.groups.filter (· ≠ g) }, ?_, ?_⟩
  · rw [GroupBlock.groupDestroy, hs]
    dsimp only [Option.bind_eq_bind, Option.bind_some]
    rw [hm]
    dsimp only [Option.bind_some]
    rw [hc]
    dsimp only [Option.bind_some]
    split_ifs with hparent
    · dsimp only [GroupBlock.removeGroup]
      rw [hleave hparent]
      rfl
    · rw [hsame (not_not.mp hparent)]
      rfl
  · refine ⟨hsok.dropOwner hsno, hmok.dropOwner hmno, (hcok'.dropMember hfree).dropOwner ?_,
      h.nets.dropGroup hg ?_⟩
    · exact fun t ht => hcno' t (List.mem_of_mem_filter ht)
    · rw [groupNets, hpower, hground]
      rfl

theorem Consistent.instCreate (h : B.Consistent) (hi0 : i ≠ 0) (hi : i ∉ B.insts) :
    (B.instCreate i).Consistent :=
  ⟨h.insts.newMember hi hi0, h.modInsts, h.children, h.nets⟩

theorem Consistent.instDestroy (h : B.Consistent) (hi : i ∈ B.insts) :
    ∃ B', B.instDestroy i = some B' ∧ B'.Consistent := by
  obtain ⟨s, hleave, hsame, hok, howner⟩ := h.insts.leave hi (Nat.lt_succ_self B.insts.length)
  refine ⟨{ B with instLists := s, insts := B.insts.filter (· ≠ i) }, ?_, ?_⟩
  · rw [GroupBlock.instDestroy]
    split_ifs with hgroup
    · rw [GroupBlock.removeInst, hleave hgroup]
      rfl
    · rw [hsame (not_not.mp hgroup)]
      rfl
  · refine ⟨hok.dropMember ?_, h.modInsts, h.children, h.nets⟩
    rw [howner, Function.update_self]

theorem Consistent.modInstCreate (h : B.Consistent) (hi0 : i ≠ 0) (hi : i ∉ B.modInsts) :
    (B.modInstCreate i).Consistent :=
  ⟨h.insts, h.modInsts.newMember hi hi0, h.children, h.nets⟩

theorem Consistent.modInstDestroy (h : B.Consistent) (hi : i ∈ B.modInsts) :
    ∃ B', B.modInstDestroy i = some B' ∧ B'.Consistent := by
  obtain ⟨s, hleave, hsame, hok, howner⟩ := h.modInsts.leave hi (Nat.lt_succ_self B.modInsts.length)
  refine ⟨{ B with modInstLists := s, modInsts := B.modInsts.filter (· ≠ i) }, ?_, ?_⟩
  · rw [GroupBlock.modInstDestroy]
    split_ifs with hgroup
    · rw [GroupBlock.removeModInst, hleave hgroup]
      rfl
    · rw [hsame (not_not.mp hgroup)]
      rfl
  · refine ⟨h.insts, hok.dropMember ?_, h.children, h.nets⟩
    rw [howner, Function.update_self]

/-- A net that is in one group is in none once it left it. -/
theorem netGroups_removeNet (hin : n ∈ B.groupNets g) :
    (B.removeNet g n).netGroups n = (B.netGroups n).erase g := by
  have herase : Function.update B.netGroups n ((B.netGroups n).erase g) n = (B.netGroups n).erase g :=
    Function.update_self n _ _
  rw [GroupBlock.removeNet]
  split_ifs with hpower hground
  · exact herase
  · exact herase
  · exact absurd hin (List.not_mem_append hpower hground)

theorem Consistent.dropNet (h : B.Consistent) (hn : B.netGroups n = []) :
    { B with nets := B.nets.filter (· ≠ n) }.Consistent :=
  ⟨h.insts, h.modInsts, h.children, h.nets.dropNet hn⟩

theorem Consistent.netDestroy (h : B.Consistent) (hn : n ∈ B.nets)
    (hone : (B.netGroups n).length ≤ 1) : ∃ B', B.netDestroy n = some B' ∧ B'.Consistent := by
  rw [GroupBlock.netDestroy]
  rcases hgroups : B.netGroups n with _ | ⟨g, _ | ⟨g', rest⟩⟩
  · exact ⟨_, rfl, h.dropNet hgroups⟩
  · have hmem : g ∈ B.netGroups n := hgroups ▸ List.mem_singleton_self g
    have hg : g ∈ B.groups := h.nets.groups n hn g hmem
    have hin : n ∈ B.groupNets g := (h.nets.mem g hg n).mpr ⟨hn, hmem⟩
    refine ⟨{ B.removeNet g n with nets := (B.removeNet g n).nets.filter (· ≠ n) }, ?_, ?_⟩
    · change ((B.netGroups n)[0]?.bind fun g => some (B.removeNet g n)).map _ = _
      rw [hgroups]
      rfl
    · refine (h.removeNet hg).dropNet ?_
      rw [netGroups_removeNet hin, hgroups, List.erase_cons_head]
  · rw [hgroups] at hone
    exact absurd hone (by simp)

/-! ### Runs -/

theorem Consistent.step (h : B.Consistent) {op : GroupOp} (hvalid : B.Valid op) (hspares : B.Spares op) :
    ∃ B', B.step op = some B' ∧ B'.Consistent := by
  cases op with
  | groupCreate parent name g => exact h.groupCreate hvalid.1 hvalid.2.1 hvalid.2.2
  | groupDestroy g => exact h.groupDestroy hvalid hspares
  | addInst g i => exact h.addInst hvalid.1 hvalid.2
  | removeInst g i => exact h.removeInst hvalid.1 hvalid.2
  | addModInst g i => exact h.addModInst hvalid.1 hvalid.2
  | removeModInst g i => exact h.removeModInst hvalid.1 hvalid.2
  | addGroup g child => exact h.addGroup hvalid.1 hvalid.2
  | removeGroup g child => exact h.removeGroup hvalid.1 hvalid.2
  | addPowerNet g n => exact ⟨_, rfl, h.addPowerNet hvalid.1 hvalid.2⟩
  | addGroundNet g n => exact ⟨_, rfl, h.addGroundNet hvalid.1 hvalid.2⟩
  | removeNet g n => exact ⟨_, rfl, h.removeNet hvalid.1⟩
  | instCreate i => exact ⟨_, rfl, h.instCreate hvalid.1 hvalid.2⟩
  | instDestroy i => exact h.instDestroy hvalid
  | modInstCreate i => exact ⟨_, rfl, h.modInstCreate hvalid.1 hvalid.2⟩
  | modInstDestroy i => exact h.modInstDestroy hvalid
  | netCreate n => exact ⟨_, rfl, h.insts, h.modInsts, h.children, h.nets.newNet hvalid⟩
  | netDestroy n => exact h.netDestroy hvalid hspares

/-- Every run that destroys no group with several members of a kind or with nets, and no net of several
groups, ends, and leaves the members of groups consistent. -/
theorem run_consistent (ops : List GroupOp)
    (hops : Run.Along GroupBlock.step (fun B op => B.Valid op ∧ B.Spares op) {} ops) :
    ∃ B, Run.run GroupBlock.step {} ops = some B ∧ B.Consistent := by
  obtain ⟨B, hrun, -, hB⟩ := Run.run_total
    (P := fun ops B => Run.Along GroupBlock.step (fun B op => B.Valid op ∧ B.Spares op) B ops ∧
      B.Consistent)
    (fun op ops B hP => by
      obtain ⟨⟨⟨hvalid, hspares⟩, hmore⟩, hB⟩ := hP
      obtain ⟨B', hstep, hB'⟩ := hB.step hvalid hspares
      exact ⟨B', hstep, hmore B' hstep, hB'⟩)
    {} ops ⟨hops, consistent_init⟩
  exact ⟨B, hrun, hB⟩

theorem run_consistent_one : ∃ B, Run.run GroupBlock.step {}
    [.groupCreate none "top" 1, .groupCreate (some 1) "sub" 2, .instCreate 1, .modInstCreate 1, .netCreate 1,
      .addInst 2 1, .addModInst 2 1, .addPowerNet 2 1, .addGroundNet 2 1, .netDestroy 1, .groupDestroy 2,
      .addInst 1 1] = some B ∧ B.Consistent :=
  run_consistent _ (by decide)

/-- The second of two instances of a group that is destroyed still names it. -/
theorem not_consistent_groupDestroy : ∃ ops,
    Run.Along GroupBlock.step (fun B op => B.Valid op) {} ops ∧
      ∃ B, Run.run GroupBlock.step {} ops = some B ∧ ¬B.Consistent := by
  refine ⟨[.groupCreate none "g" 1, .instCreate 1, .instCreate 2, .addInst 1 1, .addInst 1 2,
    .groupDestroy 1], by decide, _, rfl, fun h => ?_⟩
  have howner := h.insts.owner 1 (by decide) (by decide)
  revert howner
  decide

end GroupBlock

end OpenRoad.Db
