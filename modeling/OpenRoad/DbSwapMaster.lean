import OpenRoad.DbInstInvariant
import Mathlib.Data.List.Zip

/-!
`dbInst::swapMaster`: where the terminals of the two masters are equivalent, they are matched by
name, one to one, and the iterms of the instance are listed in the order of the new terminals.
-/

namespace OpenRoad.Db
open LinkedList

/-! ### Order ids -/

/-- A key that occurs once is found where it stands. -/
theorem find?_key {β : Type*} (key : β → Nat) {l : List β} (hnodup : (l.map key).Nodup) {q : β}
    (hq : q ∈ l) : l.find? (fun p => key p == key q) = some q := by
  induction l with
  | nil => exact absurd hq List.not_mem_nil
  | cons a l ih =>
      rw [List.map_cons, List.nodup_cons] at hnodup
      rcases List.mem_cons.mp hq with rfl | hq
      · exact List.find?_cons_of_pos (beq_self_eq_true _)
      · have hne : key a ≠ key q := fun heq => hnodup.1 (heq ▸ List.mem_map_of_mem hq)
        rw [List.find?_cons_of_neg (by simpa using hne)]
        exact ih hnodup.2 hq

/-- The order ids are those of the terminals, in the order of their names. -/
theorem Master.sortMTerms_perm (m : Master) :
    (m.sortMTerms.map Prod.snd).Perm (List.range m.mterms.length) := by
  refine ((List.mergeSort_perm _ _).map Prod.snd).trans ?_
  rw [List.zipIdx_map_snd, List.range_eq_range']

theorem Master.sortMTerms_length (m : Master) : m.sortMTerms.length = m.mterms.length := by
  rw [← List.length_map Prod.snd, m.sortMTerms_perm.length_eq, List.length_range]

/-- The order ids of the terminals of the same name. -/
def idxPairs (old new : Master) : List (Nat × Nat) :=
  (old.sortMTerms.zip new.sortMTerms).map fun p => (p.1.2, p.2.2)

/-- Equivalent terminals: as many, and with the same names. -/
def SameTerms (old new : Master) : Prop :=
  old.mterms.length = new.mterms.length ∧
    old.sortMTerms.map Prod.fst = new.sortMTerms.map Prod.fst

theorem SameTerms.symm {old new : Master} (h : SameTerms old new) : SameTerms new old :=
  ⟨h.1.symm, h.2.symm⟩

theorem idxPairs_fst {old new : Master} (h : SameTerms old new) :
    ((idxPairs old new).map Prod.fst).Perm (List.range old.mterms.length) := by
  have hlen : old.sortMTerms.length ≤ new.sortMTerms.length := by
    rw [old.sortMTerms_length, new.sortMTerms_length]
    exact h.1.le
  have hfst : (idxPairs old new).map Prod.fst = old.sortMTerms.map Prod.snd := by
    rw [← congrArg (List.map Prod.snd) (List.map_fst_zip hlen), List.map_map, idxPairs, List.map_map]
    rfl
  rw [hfst]
  exact old.sortMTerms_perm

theorem idxPairs_swap (old new : Master) :
    idxPairs new old = (idxPairs old new).map Prod.swap := by
  rw [idxPairs, idxPairs, ← List.zip_swap, List.map_map, List.map_map]
  rfl

theorem idxPairs_snd {old new : Master} (h : SameTerms old new) :
    ((idxPairs old new).map Prod.snd).Perm (List.range old.mterms.length) := by
  have hperm := idxPairs_fst h.symm
  rw [idxPairs_swap, List.map_map, ← h.1] at hperm
  exact hperm

/-- What `idxMap` is: it takes the order ids of the terminals of the old master to those of the
terminals of the same names. -/
theorem idxMap_spec {old new : Master} (h : SameTerms old new) :
    ∃ idx, idxMap old new = some idx ∧ ∀ p ∈ idxPairs old new, idx p.1 = p.2 := by
  refine ⟨_, by rw [idxMap, if_neg (not_not.mpr h.1), if_pos h.2], fun p hp => ?_⟩
  obtain ⟨q, hq, rfl⟩ := List.mem_map.mp hp
  have hnodup : ((old.sortMTerms.zip new.sortMTerms).map fun p => p.1.2).Nodup := by
    have hperm := idxPairs_fst h
    rw [idxPairs, List.map_map] at hperm
    exact hperm.nodup_iff.mpr List.nodup_range
  simp only [find?_key (fun p : (String × Nat) × String × Nat => p.1.2) hnodup hq]

theorem sameTerms_of_idxMap {old new : Master} {idx : Nat → Nat} (h : idxMap old new = some idx) :
    SameTerms old new := by
  unfold idxMap at h
  split_ifs at h with hlen hnames
  exact ⟨not_not.mp hlen, hnames⟩

theorem mem_idxPairs {old new : Master} (h : SameTerms old new) {k : Nat}
    (hk : k < old.mterms.length) : ∃ l, (k, l) ∈ idxPairs old new := by
  have hmem := (idxPairs_fst h).mem_iff.mpr (List.mem_range.mpr hk)
  obtain ⟨p, hp, rfl⟩ := List.mem_map.mp hmem
  exact ⟨p.2, hp⟩

/-- The order ids of the old terminals are taken to all those of the new ones. -/
theorem idxMap_perm {old new : Master} {idx : Nat → Nat} (h : idxMap old new = some idx) :
    ((List.range old.mterms.length).map idx).Perm (List.range new.mterms.length) := by
  have hsame := sameTerms_of_idxMap h
  obtain ⟨idx', hidx', hpairs⟩ := idxMap_spec hsame
  obtain rfl : idx' = idx := Option.some.inj (hidx'.symm.trans h)
  have hmap : ((idxPairs old new).map Prod.fst).map idx' = (idxPairs old new).map Prod.snd := by
    rw [List.map_map]
    exact List.map_congr_left hpairs
  refine ((idxPairs_fst hsame).map idx').symm.trans ?_
  rw [hmap, ← hsame.1]
  exact idxPairs_snd hsame

/-- Swapping back takes each order id back. -/
theorem idxMap_back {old new : Master} {idx : Nat → Nat} (h : idxMap old new = some idx) :
    ∃ back, idxMap new old = some back ∧ ∀ k < old.mterms.length, back (idx k) = k := by
  have hsame := sameTerms_of_idxMap h
  obtain ⟨idx', hidx', hpairs⟩ := idxMap_spec hsame
  obtain rfl : idx' = idx := Option.some.inj (hidx'.symm.trans h)
  obtain ⟨back, hback, hpairs'⟩ := idxMap_spec hsame.symm
  refine ⟨back, hback, fun k hk => ?_⟩
  obtain ⟨l, hl⟩ := mem_idxPairs hsame hk
  rw [hpairs (k, l) hl]
  refine hpairs' (l, k) ?_
  rw [idxPairs_swap]
  exact List.mem_map_of_mem hl

/-- A master has its own terminals. -/
theorem idxMap_self (m : Master) :
    ∃ idx, idxMap m m = some idx ∧ ∀ k < m.mterms.length, idx k = k := by
  have hsame : SameTerms m m := ⟨rfl, rfl⟩
  obtain ⟨idx, hidx, hpairs⟩ := idxMap_spec hsame
  refine ⟨idx, hidx, fun k hk => ?_⟩
  obtain ⟨l, hl⟩ := mem_idxPairs hsame hk
  obtain ⟨q, hq, heq⟩ := List.mem_map.mp hl
  have hdiag : q.1 = q.2 := by
    obtain ⟨n, hn, rfl⟩ := List.mem_iff_getElem.mp hq
    rw [List.getElem_zip]
  obtain ⟨rfl, rfl⟩ := Prod.mk.inj heq
  rw [hpairs _ hl, hdiag]

/-! ### The order of the iterms -/

/-- Sorted by their order ids, the iterms are in the order of the terminals. -/
theorem map_mergeSort_eq_range {ts : List Nat} {idx : Nat → Nat} {n : Nat}
    (h : (ts.map idx).Perm (List.range n)) :
    (ts.mergeSort fun t t' => decide (idx t ≤ idx t')).map idx = List.range n := by
  have hsorted : (ts.mergeSort fun t t' => decide (idx t ≤ idx t')).Pairwise
      fun t t' => decide (idx t ≤ idx t') = true :=
    List.pairwise_mergeSort
      (fun a b c hab hbc => by simp only [decide_eq_true_eq] at *; omega)
      (fun a b => by simp only [Bool.or_eq_true, decide_eq_true_eq]; omega) ts
  refine List.Perm.eq_of_pairwise (fun a b _ _ => Nat.le_antisymm) ?_ List.pairwise_le_range
    (((List.mergeSort_perm _ _).map idx).trans h)
  rw [List.pairwise_map]
  exact hsorted.imp of_decide_eq_true

/-- There is only one order. -/
theorem eq_of_map_eq_range {ts ts' : List Nat} {idx : Nat → Nat} {n : Nat} (hperm : ts.Perm ts')
    (h : ts.map idx = List.range n) (h' : ts'.map idx = List.range n) : ts = ts' := by
  have hinj := List.inj_on_of_nodup_map (h.symm ▸ List.nodup_range : (ts.map idx).Nodup)
  have hlen := hperm.length_eq
  refine List.ext_getElem hlen fun k hk hk' => ?_
  refine hinj (List.getElem_mem hk) (hperm.mem_iff.mpr (List.getElem_mem hk')) ?_
  rw [← List.getElem_map idx (h := by rwa [List.length_map]),
    ← List.getElem_map idx (h := by rwa [List.length_map])]
  simp only [h, h']

namespace Block

variable {B B' : Block}

/-- The instance `i` with the master `m`, where the order ids are mapped by `idx`. -/
def swapped (B : Block) (i : Nat) (m : MasterId) (idx : Nat → Nat) : Block :=
  let o := B.inst i
  let C := ((B.setInst i { o with master := m }).setInstBBox i).rebind o.iterms idx
  C.setInst i { C.inst i with iterms := C.sortITerms o.iterms }

/-- What `dbInst::swapMaster` did, where it returned. -/
theorem instSwapMaster_cases {i : Nat} {m : MasterId} (h : B.instSwapMaster i m = .ok B') :
    (B.inst i).flags.dontTouch = false ∧
      (((B.inst i).hierarchy = true ∧ B' = B) ∨
      ((B.inst i).hierarchy = false ∧
        ∃ r, r = Record.swapInst i (B.inst i).master.lib (B.inst i).master.id m.lib m.id ∧
          ((idxMap (B.master (B.inst i).master) (B.master m) = none ∧ B' = B.record r) ∨
          ∃ idx, idxMap (B.master (B.inst i).master) (B.master m) = some idx ∧
            B' = (B.record r).swapped i m idx))) := by
  unfold instSwapMaster at h
  simp only [] at h
  split_ifs at h with hdont hhier
  · exact ⟨Bool.eq_false_of_not_eq_true hdont, Or.inl ⟨hhier, (Res.ok.inj h).symm⟩⟩
  · refine ⟨Bool.eq_false_of_not_eq_true hdont,
      Or.inr ⟨Bool.eq_false_of_not_eq_true hhier, _, rfl, ?_⟩⟩
    have hmaster : ∀ r, (B.record r).master = B.master := fun _ => rfl
    rw [hmaster] at h
    cases hidx : idxMap (B.master (B.inst i).master) (B.master m) with
    | none =>
        rw [hidx] at h
        exact Or.inl ⟨rfl, (Res.ok.inj h).symm⟩
    | some idx =>
        rw [hidx] at h
        exact Or.inr ⟨idx, rfl, (Res.ok.inj h).symm⟩

/-- What the instance is with its new master. -/
theorem swapped_inst_self (B : Block) (i : Nat) (m : MasterId) (idx : Nat → Nat) :
    (B.swapped i m idx).inst i = { B.inst i with
      master := m
      bbox := B.instBox { B.inst i with master := m }
      iterms := (B.rebind (B.inst i).iterms idx).sortITerms (B.inst i).iterms } := by
  simp [swapped, setInstBBox, setInst, rebind, sortITerms, instBox]

theorem swapped_inst_of_ne {i j : Nat} (h : j ≠ i) (m : MasterId) (idx : Nat → Nat) :
    (B.swapped i m idx).inst j = B.inst j := by
  simp [swapped, setInstBBox, setInst, rebind, h]

theorem swapped_iterm (B : Block) (i : Nat) (m : MasterId) (idx : Nat → Nat) :
    (B.swapped i m idx).iterm = (B.rebind (B.inst i).iterms idx).iterm := rfl

theorem rebind_inst (B : Block) (ts : List Nat) (idx : Nat → Nat) (t : Nat) :
    ((B.rebind ts idx).iterm t).inst = (B.iterm t).inst := by
  simp only [rebind]
  split_ifs <;> rfl

theorem rebind_iterm {ts : List Nat} {t : Nat} (h : t ∉ ts) (idx : Nat → Nat) :
    (B.rebind ts idx).iterm t = B.iterm t := by
  simp only [rebind]
  rw [if_neg h]

theorem map_rebind (B : Block) (ts : List Nat) (idx : Nat → Nat) :
    ts.map (fun t => ((B.rebind ts idx).iterm t).mtermIdx) =
      (ts.map fun t => (B.iterm t).mtermIdx).map idx := by
  rw [List.map_map]
  refine List.map_congr_left fun t ht => ?_
  simp only [rebind]
  rw [if_pos ht]
  rfl

/-- The iterms are in the order of the new terminals. -/
theorem swapped_order (hB : B.Ok) {i : Nat} (hi : i ∈ B.instTbl.allocated) {m : MasterId}
    {idx : Nat → Nat} (h : idxMap (B.master (B.inst i).master) (B.master m) = some idx) :
    ((B.swapped i m idx).inst i).iterms.map (fun t => ((B.swapped i m idx).iterm t).mtermIdx) =
      List.range (B.master m).mterms.length := by
  rw [swapped_inst_self, swapped_iterm]
  refine map_mergeSort_eq_range ?_
  rw [map_rebind, hB.order i hi]
  exact idxMap_perm h

theorem swapped_ok (hB : B.Ok) {i : Nat} (hi : i ∈ B.instTbl.allocated) {m : MasterId}
    {idx : Nat → Nat} (h : idxMap (B.master (B.inst i).master) (B.master m) = some idx) :
    (B.swapped i m idx).Ok := by
  have hmem : ∀ j t, t ∈ ((B.swapped i m idx).inst j).iterms ↔ t ∈ (B.inst j).iterms := by
    intro j t
    rcases eq_or_ne j i with rfl | hne
    · rw [swapped_inst_self]
      exact (List.mergeSort_perm _ _).mem_iff
    · rw [swapped_inst_of_ne hne]
  have hname : ∀ j, ((B.swapped i m idx).inst j).name = (B.inst j).name := by
    intro j
    rcases eq_or_ne j i with rfl | hne
    · rw [swapped_inst_self]
    · rw [swapped_inst_of_ne hne]
  refine ⟨((setInstBBox_listsOk (hB.toListsOk.setInst i _) i).rebind _ _).setInst i _,
    ?_, ?_, ?_, ?_⟩
  · intro t ht
    rw [swapped_iterm, rebind_inst, hmem]
    exact hB.itermInst t ht
  · intro j hj t ht
    rw [hmem] at ht
    rw [swapped_iterm, rebind_inst]
    exact hB.instITerms j hj t ht
  · intro j hj
    rcases eq_or_ne j i with rfl | hne
    · refine (swapped_order hB hi h).trans ?_
      rw [swapped_inst_self]
      rfl
    · rw [swapped_inst_of_ne hne, swapped_iterm]
      refine Eq.trans (List.map_congr_left fun t ht => ?_) (hB.order j hj)
      rw [rebind_iterm]
      intro hti
      -- an iterm of another instance is not one of this
      exact hne ((hB.instITerms j hj t ht).2.symm.trans (hB.instITerms i hi t hti).2)
  · intro j hj l hl hjl
    rw [hname, hname] at hjl
    exact hB.names j hj l hl hjl

theorem instSwapMaster_ok (hB : B.Ok) {i : Nat} (hi : i ∈ B.instTbl.allocated) {m : MasterId}
    (h : B.instSwapMaster i m = .ok B') : B'.Ok := by
  obtain ⟨-, ⟨-, rfl⟩ | ⟨-, r, -, ⟨-, rfl⟩ | ⟨idx, hidx, rfl⟩⟩⟩ := instSwapMaster_cases h
  · exact hB
  · exact hB.record r
  · exact swapped_ok (hB.record r) hi hidx

/-! ### Runs -/

theorem perform_ok (hB : B.Ok) {op : BlockOp} (hvalid : B.validOp op = true) (hok : B.KeepsLists op)
    (h : B.perform op = .ok B') : B'.Ok := by
  have hall : ∀ {r : Res Block}, r.All Ok → r = .ok B' → B'.Ok := by
    intro r hr heq
    exact hr B' (by rw [heq]; rfl)
  by_cases hop : isInstOp op = true
  · cases op <;> first | exact absurd hop Bool.false_ne_true | skip
    case instCreate m name region physicalOnly parentModule =>
      exact hall (Res.all_ofCreate fun i B₁ h₁ => instCreate_ok hB h₁) h
    case instDestroy i => exact instDestroy_ok hB h
    case instSetOrigin i x y => exact hall (instSetOrigin_all_ok hB i x y) h
    case instSetLocation i x y => exact hall (instSetOrigin_all_ok hB i _ _) h
    case instSetOrient i orient => exact hall (instSetOrient_all_ok hB i orient) h
    case instSetPlacementStatus i status =>
      exact hall (Res.all_ok (instSetPlacementStatus_ok hB i status)) h
    case instSwapMaster i m => exact instSwapMaster_ok hB (hB.instTbl.validId_iff.mp hvalid) h
    case instSetDoNotTouch i v =>
      refine hall (Res.all_ok ?_) h
      exact hB.setInst rfl rfl rfl
  · have hsame := perform_sameInsts (B := B) (Bool.eq_false_of_not_eq_true hop) B' (by rw [h]; rfl)
    exact hsame.ok hB (perform_listsOk hB.toListsOk hvalid hok B' (by rw [h]; rfl))

theorem stepOk_ok (B : Block) (op : BlockOp) (B' : Block) (hB : B.Ok) (hok : B.KeepsLists op)
    (h : B.stepOk op = some B') : B'.Ok := by
  unfold stepOk at h
  split_ifs at h with hvalid
  cases hperform : B.perform op with
  | ok B₁ =>
      rw [hperform] at h
      obtain rfl := Option.some.inj h
      exact perform_ok hB hvalid hok hperform
  | error code B₁ => rw [hperform] at h; exact absurd h (by simp [Res.ok?])
  | abort => rw [hperform] at h; exact absurd h (by simp [Res.ok?])

theorem empty_ok (shifts : PageShifts) (master : MasterId → Master) (topModule : Nat) :
    (empty shifts master topModule).Ok := by
  have hnone : (empty shifts master topModule).instTbl.allocated = ∅ ∧
      (empty shifts master topModule).itermTbl.allocated = ∅ :=
    ⟨DbTable.allocated_init _, DbTable.allocated_init _⟩
  refine ⟨empty_listsOk shifts master topModule, ?_, ?_, ?_, ?_⟩
  · simp [hnone]
  · simp [hnone]
  · simp [hnone]
  · simp [hnone]

/-- Every block that is built from a new one by calls that keep the lists and raise no error. -/
theorem ok_of_run {shifts : PageShifts} {master : MasterId → Master} {topModule : Nat}
    {ops : List BlockOp} (hok : Run.Along stepOk KeepsLists (empty shifts master topModule) ops)
    (hrun : Run.run stepOk (empty shifts master topModule) ops = some B) : B.Ok :=
  Run.run_invariant stepOk_ok (empty_ok shifts master topModule) hok hrun

end Block

end OpenRoad.Db
