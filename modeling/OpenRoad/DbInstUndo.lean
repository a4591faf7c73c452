import OpenRoad.DbConnectUndo
import OpenRoad.DbSwapMaster

/-!
Undoing the calls that place, swap, create and destroy instances. The box of an instance is not
journaled: undoing computes it anew, so it is restored where it was the box that is computed.
-/

namespace OpenRoad.Db
open LinkedList

namespace Block

variable {B B' U U' : Block}

/-! ### Changing one instance -/

theorem instBox_eq (h : U.master = B.master) (o : Inst) : U.instBox o = B.instBox o := by
  rw [instBox, instBox, h]

theorem Restored.sameInst_of_setInst {i : Nat} {o : Inst} {r : Record}
    (hR : Restored ((B.setInst i o).record r) U') (hi : i ∈ B.instTbl.allocated) :
    SameInst o (U'.inst i) := by
  have h := hR.inst i hi
  rwa [show ((B.setInst i o).record r).inst i = o from Function.update_self _ _ _] at h

/-- The other instances are as they were, so it is enough that this one is restored. -/
theorem Restored.of_setInst {i : Nat} {o o' : Inst} {r : Record}
    (hR : Restored ((B.setInst i o).record r) U') (ho' : SameInst (B.inst i) o') :
    Restored B (U'.setInst i o') := by
  refine { hR with inst := fun j hj => ?_, lists := hR.lists.setInst i o' }
  rcases eq_or_ne j i with rfl | hne
  · rwa [show (U'.setInst j o').inst j = o' from Function.update_self _ _ _]
  · have h := hR.inst j hj
    rw [show ((B.setInst i o).record r).inst j = B.inst j from Function.update_of_ne hne _ _] at h
    rwa [show (U'.setInst i o').inst j = U'.inst j from Function.update_of_ne hne _ _]

/-- An instance with its box computed. -/
def boxed (B : Block) (o : Inst) : Inst := { o with bbox := B.instBox o }

theorem setInstBBox_setInst (B : Block) (i : Nat) (o : Inst) :
    (B.setInst i o).setInstBBox i = B.setInst i (B.boxed o) := by
  simp [setInstBBox, setInst, boxed, instBox]

/-- What `dbInst::setOrigin` did, where it returned. -/
theorem instSetOrigin_cases {i : Nat} {x y : Int} (h : B.instSetOrigin i x y = .ok B') :
    ((B.inst i).flags.status.isPlaced = true ∧ (B.inst i).x = x ∧ (B.inst i).y = y ∧ B' = B) ∨
    (¬ ((B.inst i).flags.status.isPlaced = true ∧ (B.inst i).x = x ∧ (B.inst i).y = y) ∧
      (B.inst i).flags.status.isFixed = false ∧
      B' = (B.setInst i (B.boxed { B.inst i with x := x, y := y })).record
        (.updateInstOrigin i (B.inst i).x (B.inst i).y x y)) := by
  unfold instSetOrigin at h
  simp only [] at h
  split_ifs at h with hsame hfixed
  · exact Or.inl ⟨hsame.1, hsame.2.1, hsame.2.2, (Res.ok.inj h).symm⟩
  · rw [setInstBBox_setInst] at h
    exact Or.inr ⟨hsame, Bool.eq_false_of_not_eq_true hfixed, (Res.ok.inj h).symm⟩

/-- Setting the origin, where the call gets past its checks. -/
theorem instSetOrigin_eq (hj : U.journal = none) {i : Nat} {x y : Int}
    (hsame : ¬ ((U.inst i).flags.status.isPlaced = true ∧ (U.inst i).x = x ∧ (U.inst i).y = y))
    (hfixed : (U.inst i).flags.status.isFixed = false) :
    U.instSetOrigin i x y = .ok (U.setInst i (U.boxed { U.inst i with x := x, y := y })) := by
  unfold instSetOrigin
  simp only []
  rw [if_neg hsame, if_neg (by simp [hfixed]), setInstBBox_setInst, record_of_none]
  exact hj

/-- The box is restored where it was the box that is computed. -/
theorem undoes_instSetOrigin {i : Nat} {x y : Int} (hi : i ∈ B.instTbl.allocated)
    (hok : ((B.inst i).flags.status.isPlaced = true ∧ (B.inst i).x = x ∧ (B.inst i).y = y) ∨
      (B.inst i).bbox = B.instBox (B.inst i))
    (h : B.instSetOrigin i x y = .ok B') : Undoes B B' := by
  rcases instSetOrigin_cases h with ⟨-, -, -, rfl⟩ | ⟨hsame, hfixed, rfl⟩
  · exact Undoes.refl B'
  have hbox := hok.resolve_left hsame
  refine Undoes.one rfl fun U' hR => ?_
  obtain ⟨heq, hhier⟩ := hR.sameInst_of_setInst hi
  have hx : (U'.inst i).x = x := by rw [heq]; rfl
  have hy : (U'.inst i).y = y := by rw [heq]; rfl
  have hflags : (U'.inst i).flags = (B.inst i).flags := by rw [heq]; rfl
  refine ⟨U'.setInst i (U'.boxed { U'.inst i with x := (B.inst i).x, y := (B.inst i).y }), ?_,
    hR.of_setInst ⟨?_, hhier⟩⟩
  · refine instSetOrigin_eq hR.journal ?_ (by rw [hflags]; exact hfixed)
    rw [hx, hy, hflags]
    rintro ⟨hplaced, hpx, hpy⟩
    exact hsame ⟨hplaced, hpx.symm, hpy.symm⟩
  · have hback : U'.instBox { U'.inst i with x := (B.inst i).x, y := (B.inst i).y } =
        (B.inst i).bbox := by
      rw [instBox_eq hR.master, hbox, heq]
      rfl
    rw [boxed, hback, heq]
    rfl

theorem undoUpdateInstFlags_eq (U : Block) (i : Nat) (prev new : InstFlags) :
    U.undoUpdateInstFlags i prev new = U.setInst i
      (if prev.orient ≠ new.orient then U.boxed { U.inst i with flags := prev }
        else { U.inst i with flags := prev }) := by
  unfold undoUpdateInstFlags
  simp only []
  split_ifs
  · rw [setInstBBox_setInst]
  · rfl

theorem undoes_instSetOrient {i : Nat} {orient : Orient} (hi : i ∈ B.instTbl.allocated)
    (hok : orient = (B.inst i).flags.orient ∨ (B.inst i).bbox = B.instBox (B.inst i))
    (h : B.instSetOrient i orient = .ok B') : Undoes B B' := by
  unfold instSetOrient at h
  simp only [] at h
  split_ifs at h with hsame hfixed
  · obtain rfl := Res.ok.inj h
    exact Undoes.refl B
  rw [setInstBBox_setInst] at h
  obtain rfl := Res.ok.inj h
  have hbox := hok.resolve_left hsame
  refine Undoes.one rfl fun U' hR => ?_
  obtain ⟨heq, hhier⟩ := hR.sameInst_of_setInst hi
  refine ⟨_, congrArg Res.ok (undoUpdateInstFlags_eq U' i _ _), hR.of_setInst ?_⟩
  rw [if_pos (Ne.symm hsame)]
  refine ⟨?_, hhier⟩
  have hback : U'.instBox { U'.inst i with flags := (B.inst i).flags } = (B.inst i).bbox := by
    rw [instBox_eq hR.master, hbox, heq]
    rfl
  rw [boxed, hback, heq]
  rfl

theorem undoes_instSetPlacementStatus {i : Nat} (hi : i ∈ B.instTbl.allocated)
    (status : PlacementStatus) : Undoes B (B.instSetPlacementStatus i status) := by
  unfold instSetPlacementStatus
  simp only []
  split_ifs
  · exact Undoes.refl B
  refine Undoes.one rfl fun U' hR => ?_
  obtain ⟨heq, hhier⟩ := hR.sameInst_of_setInst hi
  refine ⟨_, congrArg Res.ok (undoUpdateInstFlags_eq U' i _ _), hR.of_setInst ?_⟩
  rw [if_neg (not_not.mpr rfl)]
  exact ⟨by rw [heq], hhier⟩

/-! ### `swapMaster` -/

/-- Sorting finds the list that is in order. -/
theorem sortITerms_eq {C : Block} {ts us : List Nat} {n : Nat} (hperm : ts.Perm us)
    (horder : us.map (fun t => (C.iterm t).mtermIdx) = List.range n) : C.sortITerms ts = us := by
  refine eq_of_map_eq_range ((List.mergeSort_perm _ _).trans hperm) ?_ horder
  refine map_mergeSort_eq_range ((hperm.map _).trans ?_)
  rw [horder]

/-- Swapping a master changes instances and iterms, and nothing else. -/
theorem swapped_fields (C : Block) (i : Nat) (m : MasterId) (idx : Nat → Nat) :
    C.swapped i m idx = { C with
      inst := (C.swapped i m idx).inst
      iterm := (C.swapped i m idx).iterm } := by
  simp only [swapped, setInst, setInstBBox, rebind]

/-- An instance that is given iterms, in their order, and a master, in place of those it has. -/
theorem swapped_eq {C : Block} {i : Nat} {m : MasterId} {idx : Nat → Nat} {us : List Nat} {n : Nat}
    (hperm : (C.inst i).iterms.Perm us)
    (horder : us.map (fun t => ((C.rebind (C.inst i).iterms idx).iterm t).mtermIdx) =
      List.range n) :
    C.swapped i m idx = { C with
      inst := Function.update C.inst i (C.boxed { C.inst i with master := m, iterms := us })
      iterm := (C.rebind (C.inst i).iterms idx).iterm } := by
  have hinst : (C.swapped i m idx).inst =
      Function.update C.inst i (C.boxed { C.inst i with master := m, iterms := us }) := by
    funext j
    rcases eq_or_ne j i with rfl | hne
    · rw [swapped_inst_self, sortITerms_eq hperm horder, Function.update_self]
      rfl
    · rw [swapped_inst_of_ne hne, Function.update_of_ne hne]
  rw [swapped_fields, hinst, swapped_iterm]

/-- The order ids of the iterms of an instance are those of the terminals. -/
theorem Ok.mtermIdx_lt (hB : B.Ok) {i : Nat} (hi : i ∈ B.instTbl.allocated) {t : Nat}
    (ht : t ∈ (B.inst i).iterms) :
    (B.iterm t).mtermIdx < (B.master (B.inst i).master).mterms.length := by
  have hmem := List.mem_map_of_mem (f := fun t => (B.iterm t).mtermIdx) ht
  rw [hB.order i hi] at hmem
  exact List.mem_range.mp hmem

/-- Swapping the own master in leaves the instance as it is, where the box is the one computed. -/
theorem swapped_self (hB : B.Ok) {i : Nat} (hi : i ∈ B.instTbl.allocated)
    (hbox : (B.inst i).bbox = B.instBox (B.inst i)) {idx : Nat → Nat}
    (hidx : ∀ k < (B.master (B.inst i).master).mterms.length, idx k = k) :
    B.swapped i (B.inst i).master idx = B := by
  have hiterm : (B.rebind (B.inst i).iterms idx).iterm = B.iterm := by
    funext t
    simp only [rebind]
    split_ifs with ht
    · rw [hidx _ (hB.mtermIdx_lt hi ht)]
    · rfl
  rw [swapped_eq (List.Perm.refl _) (by rw [hiterm]; exact hB.order i hi), hiterm]
  have hself : B.boxed { B.inst i with master := (B.inst i).master, iterms := (B.inst i).iterms } =
      B.inst i := by
    change ({ B.inst i with bbox := B.instBox (B.inst i) } : Inst) = B.inst i
    rw [← hbox]
  rw [hself, Function.update_eq_self]

/-- Swapping back. -/
theorem swapped_swapped (hB : B.Ok) {i : Nat} (hi : i ∈ B.instTbl.allocated)
    (hbox : (B.inst i).bbox = B.instBox (B.inst i)) {m : MasterId} {idx back : Nat → Nat}
    (hback : ∀ k < (B.master (B.inst i).master).mterms.length, back (idx k) = k) :
    (B.swapped i m idx).swapped i (B.inst i).master back = B := by
  set C := B.swapped i m idx with hC
  have hCinst : C.inst i = { B.inst i with
      master := m
      bbox := B.instBox { B.inst i with master := m }
      iterms := (B.rebind (B.inst i).iterms idx).sortITerms (B.inst i).iterms } :=
    swapped_inst_self B i m idx
  have hperm : (C.inst i).iterms.Perm (B.inst i).iterms := by
    rw [hCinst]
    exact List.mergeSort_perm _ _
  have hiterm : (C.rebind (C.inst i).iterms back).iterm = B.iterm := by
    funext t
    simp only [rebind, hperm.mem_iff]
    change (if t ∈ (B.inst i).iterms then _ else (B.rebind (B.inst i).iterms idx).iterm t) = _
    split_ifs with ht
    · change ({ (B.rebind (B.inst i).iterms idx).iterm t with
        mtermIdx := back ((B.rebind (B.inst i).iterms idx).iterm t).mtermIdx } : ITerm) = _
      simp only [rebind, if_pos ht]
      rw [hback _ (hB.mtermIdx_lt hi ht)]
    · exact rebind_iterm ht idx
  rw [swapped_eq hperm (by rw [hiterm]; exact hB.order i hi), hiterm]
  have hself : C.boxed { C.inst i with master := (B.inst i).master, iterms := (B.inst i).iterms } =
      B.inst i := by
    rw [hCinst]
    change ({ B.inst i with bbox := B.instBox (B.inst i) } : Inst) = B.inst i
    rw [← hbox]
  have hinst : Function.update C.inst i (B.inst i) = B.inst := by
    funext j
    rcases eq_or_ne j i with rfl | hne
    · rw [Function.update_self]
    · rw [Function.update_of_ne hne]
      exact swapped_inst_of_ne hne m idx
  rw [hself, hinst, hC, swapped_fields]

/-- Swapping is the same in a block that is restored. -/
theorem Restored.swapped (hB : B.Ok) {i : Nat} (hi : i ∈ B.instTbl.allocated) {m : MasterId}
    {idx : Nat → Nat} (h : idxMap (B.master (B.inst i).master) (B.master m) = some idx)
    (hR : Restored B U) : Restored (B.swapped i m idx) (U.swapped i m idx) := by
  obtain ⟨heq, hhier⟩ := hR.inst i hi
  have hts : (U.inst i).iterms = (B.inst i).iterms := by rw [heq]
  have hiterm : ∀ t ∈ B.itermTbl.allocated,
      (U.rebind (U.inst i).iterms idx).iterm t = (B.rebind (B.inst i).iterms idx).iterm t := by
    intro t ht
    simp only [rebind, hts, hR.iterm t ht]
  have horder := swapped_order hB hi h
  rw [swapped_inst_self, swapped_iterm] at horder
  set us := (B.rebind (B.inst i).iterms idx).sortITerms (B.inst i).iterms with hus
  have hperm : (B.inst i).iterms.Perm us := (List.mergeSort_perm _ _).symm
  have horderU : us.map (fun t => ((U.rebind (U.inst i).iterms idx).iterm t).mtermIdx) =
      List.range (B.master m).mterms.length := by
    rw [← horder]
    refine List.map_congr_left fun t ht => ?_
    rw [hiterm t (hB.instITerms i hi t (hperm.mem_iff.mpr ht)).1]
  rw [swapped_eq hperm horder, swapped_eq (by rw [hts]; exact hperm) horderU]
  refine { hR with inst := fun j hj => ?_, iterm := hiterm, lists := { hR.lists with } }
  change SameInst (Function.update B.inst i _ j) (Function.update U.inst i _ j)
  rcases eq_or_ne j i with rfl | hne
  · rw [Function.update_self, Function.update_self]
    refine ⟨?_, hhier⟩
    rw [boxed, boxed, instBox_eq hR.master, heq]
    rfl
  · rw [Function.update_of_ne hne, Function.update_of_ne hne]
    exact hR.inst j hj

/-- Swapping a master in without a journal, where the call gets past its checks. -/
theorem instSwapMaster_eq (hj : U.journal = none) {i : Nat} {m : MasterId} {idx : Nat → Nat}
    (hdont : (U.inst i).flags.dontTouch = false) (hhier : (U.inst i).hierarchy = false)
    (hidx : idxMap (U.master (U.inst i).master) (U.master m) = some idx) :
    U.instSwapMaster i m = .ok (U.swapped i m idx) := by
  unfold instSwapMaster
  simp only []
  rw [if_neg (by simp [hdont]), if_neg (by simp [hhier]), record_of_none hj, hidx]
  rfl

theorem undoes_instSwapMaster (hB : B.Ok) {i : Nat} {m : MasterId} (hi : i ∈ B.instTbl.allocated)
    (hok : (B.inst i).hierarchy = true ∨ (B.inst i).bbox = B.instBox (B.inst i))
    (h : B.instSwapMaster i m = .ok B') : Undoes B B' := by
  obtain ⟨hdont, ⟨-, rfl⟩ | ⟨hhier, r, rfl, hcases⟩⟩ := instSwapMaster_cases h
  · exact Undoes.refl B'
  have hbox := hok.resolve_left (by simp [hhier])
  -- what the instance is in a block that restores the one after the call
  have hinst : ∀ {C U' : Block}, Restored C U' → i ∈ C.instTbl.allocated →
      (C.inst i).flags = (B.inst i).flags → (C.inst i).hierarchy = (B.inst i).hierarchy →
      (U'.inst i).flags.dontTouch = false ∧ (U'.inst i).hierarchy = false ∧
        (U'.inst i).master = (C.inst i).master := by
    intro C U' hR hiC hflags hhierC
    obtain ⟨heq, hhierU⟩ := hR.inst i hiC
    refine ⟨by rw [heq]; exact (congrArg InstFlags.dontTouch hflags).trans hdont, ?_, by rw [heq]⟩
    by_contra htrue
    rw [Bool.not_eq_false] at htrue
    exact absurd ((hhierU htrue).symm.trans (hhierC.trans hhier)) (by simp)
  rcases hcases with ⟨-, rfl⟩ | ⟨idx, hidx, rfl⟩
  · refine Undoes.one rfl fun U' hR => ?_
    obtain ⟨hdontU, hhierU, hmasterU⟩ := hinst hR hi rfl rfl
    obtain ⟨idx, hidx, hself⟩ := idxMap_self (B.master (B.inst i).master)
    refine ⟨_, instSwapMaster_eq hR.journal hdontU hhierU (by rw [hmasterU, hR.master]; exact hidx),
      ?_⟩
    have hswapped := Restored.swapped hB hi hidx hR.of_record
    rwa [swapped_self hB hi hbox hself] at hswapped
  · set C := (B.record (.swapInst i (B.inst i).master.lib (B.inst i).master.id m.lib m.id)).swapped
      i m idx with hC
    have hBr := hB.record (.swapInst i (B.inst i).master.lib (B.inst i).master.id m.lib m.id)
    have hCok : C.Ok := swapped_ok hBr hi hidx
    have hCinst := swapped_inst_self
      (B.record (.swapInst i (B.inst i).master.lib (B.inst i).master.id m.lib m.id)) i m idx
    have hCfields := swapped_fields
      (B.record (.swapInst i (B.inst i).master.lib (B.inst i).master.id m.lib m.id)) i m idx
    rw [← hC] at hCinst hCfields
    have hiC : i ∈ C.instTbl.allocated := by
      rw [hCfields]
      exact hi
    have hjournal : C.journal =
        B.journal.map (.swapInst i (B.inst i).master.lib (B.inst i).master.id m.lib m.id :: ·) := by
      rw [hCfields]
      rfl
    refine Undoes.one hjournal fun U' hR => ?_
    obtain ⟨hdontU, hhierU, hmasterU⟩ :=
      hinst hR hiC (by rw [hCinst]; rfl) (by rw [hCinst]; rfl)
    obtain ⟨back, hback, hbackidx⟩ := idxMap_back hidx
    have hidxC : idxMap (C.master (C.inst i).master) (C.master (B.inst i).master) = some back := by
      rw [hCinst]
      exact hback
    refine ⟨_, instSwapMaster_eq hR.journal hdontU hhierU
      (by rw [hmasterU, hR.master]; exact hidxC), ?_⟩
    have hrest : C.swapped i (B.inst i).master back = B.record _ :=
      swapped_swapped hBr hi hbox hbackidx
    have hswapped := Restored.swapped hCok hi hidxC hR
    rw [hrest] at hswapped
    exact hswapped.of_record

/-! ### `create` -/

/-- Iterms that are on no net are destroyed as the table destroys them. -/
theorem destroyITerms_of_free {i : Nat} {ts : List Nat} {T : DbTable}
    (hfree : ∀ t ∈ ts, U.netITerms.owner t = 0 ∧ U.modNetITerms.owner t = 0)
    (hT : U.itermTbl.destroys ts = some T) :
    ∃ l, U.destroyITerms i ts = .ok (U.freeITerms i T l) := by
  induction ts generalizing U with
  | nil =>
      obtain rfl : U.itermTbl = T := by simpa [DbTable.destroys] using hT
      exact ⟨(U.inst i).iterms, by rw [freeITerms_self]; rfl⟩
  | cons t ts ih =>
      obtain ⟨T₁, hT₁, hrest⟩ := Option.bind_eq_some_iff.mp hT
      have hdisconnect : U.itermDisconnect t = .ok U := by
        unfold itermDisconnect
        simp only []
        rw [if_pos (hfree t List.mem_cons_self)]
      obtain ⟨l, hl⟩ := ih (U := U.freeITerms i T₁ (U.inst i).iterms.dropLast)
        (fun t' ht' => hfree t' (List.mem_cons_of_mem _ ht')) hrest
      refine ⟨l, ?_⟩
      rw [destroyITerms, hdisconnect, Res.bind_ok]
      simp only [hT₁]
      rw [← freeITerms_freeITerms U i T₁ T (U.inst i).iterms.dropLast l]
      exact hl

/-- Destroying an instance whose iterms are on no net. -/
theorem instDestroy_of_free (hj : U.journal = none) {i : Nat} {T T' : DbTable}
    (hdont : (U.inst i).flags.dontTouch = false)
    (hfree : ∀ t ∈ (U.inst i).iterms, U.netITerms.owner t = 0 ∧ U.modNetITerms.owner t = 0)
    (hT : U.itermTbl.destroys (U.inst i).iterms.reverse = some T)
    (hT' : U.instTbl.destroy i = some T') :
    ∃ l, U.instDestroy i = .ok { U.freeITerms i T l with instTbl := T' } := by
  obtain ⟨l, hl⟩ := destroyITerms_of_free (i := i)
    (fun t ht => hfree t (List.mem_reverse.mp ht)) hT
  refine ⟨l, ?_⟩
  unfold instDestroy
  rw [if_neg (by simp [hdont]), hl, Res.bind_ok]
  simp only []
  rw [record_of_none (show (U.freeITerms i T l).journal = none from hj)]
  rw [show (U.freeITerms i T l).instTbl.destroy i = some T' from hT']

theorem undoes_instCreate (hB : B.Ok) {m : MasterId} {name : String} {region i : Nat}
    {physicalOnly : Bool} {parentModule : Nat}
    (h : B.instCreate m name region physicalOnly parentModule = some (i, B')) : Undoes B B' := by
  rcases instCreate_cases h with ⟨-, -, rfl⟩ | ⟨-, T, ts, B₂, hT, hiterms, rfl⟩
  · exact Undoes.refl B'
  obtain ⟨hTok, hi0, hi, hall⟩ := hB.instTbl.create hT
  set r := Record.createInst m.lib m.id name i with hr
  have hbase : (({ B with instTbl := T } : Block).record r).ListsOk :=
    { hB.toListsOk with instTbl := hTok }
  obtain ⟨hts, -, -⟩ := iTermsCreated hbase hiterms
  set o := B₂.newInst m name region physicalOnly parentModule ts with ho
  have hB₂inst : B₂.inst = B.inst := by rw [hts.eq]; rfl
  have hB₂tbl : B₂.instTbl = T := by rw [hts.eq]; rfl
  refine Undoes.one (r := r) (by
    change B₂.journal = _
    rw [hts.eq]
    rfl) fun U' hR => ?_
  have hiT : i ∈ (B₂.setInst i o).instTbl.allocated := by
    change i ∈ B₂.instTbl.allocated
    rw [hB₂tbl, hall]
    exact Finset.mem_insert_self i _
  obtain ⟨heq, -⟩ := hR.inst i hiT
  rw [show (B₂.setInst i o).inst i = o from Function.update_self _ _ _] at heq
  have htsU : (U'.inst i).iterms = ts := by rw [heq]; rfl
  have hfree : ∀ t ∈ ts, U'.netITerms.owner t = 0 ∧ U'.modNetITerms.owner t = 0 := by
    intro t ht
    have hnew : t ∉ B.itermTbl.allocated := hts.fresh t ht
    constructor
    · rw [show U'.netITerms.owner = B.netITerms.owner from hR.netITerms.trans hts.netITerms]
      exact by_contra fun h0 => hnew (hB.netITerms.member t h0)
    · rw [show U'.modNetITerms.owner = B.modNetITerms.owner from
        hR.modNetITerms.trans hts.modNetITerms]
      exact by_contra fun h0 => hnew (hB.modNetITerms.member t h0)
  obtain ⟨T₀, hT₀, hrestores⟩ := DbTable.undo_creates hB.itermTbl hts.tbl hR.itermTbl
  obtain ⟨T₁, hT₁, hrestores'⟩ := DbTable.undo_create hB.instTbl hT (by
    have htbl := hR.instTbl
    rwa [show (B₂.setInst i o).instTbl = T from hB₂tbl] at htbl)
  obtain ⟨l, hl⟩ := instDestroy_of_free hR.journal (by rw [heq]; rfl) (by rw [htsU]; exact hfree)
    (by rw [htsU]; exact hT₀) hT₁
  have hlists : ({ U'.freeITerms i T₀ l with instTbl := T₁ } : Block).ListsOk :=
    instDestroy_listsOk hR.lists i _ (by rw [hl]; rfl)
  refine ⟨_, hl, ?_⟩
  rw [hts.eq] at hR
  refine { hR with
    instTbl := hrestores'
    itermTbl := hrestores
    inst := fun j hj => ?_
    iterm := fun t ht => ?_
    netITerms := hR.netITerms.trans hts.netITerms
    modNetITerms := hR.modNetITerms.trans hts.modNetITerms
    lists := hlists }
  · have hne : j ≠ i := fun heq => hi (heq ▸ hj)
    have hsame := hR.inst j (by
      change j ∈ T.allocated
      rw [hall]
      exact Finset.mem_insert_of_mem hj)
    change SameInst (Function.update B.inst i o j) (U'.inst j) at hsame
    rw [Function.update_of_ne hne] at hsame
    change SameInst (B.inst j) (Function.update U'.inst i _ j)
    rwa [Function.update_of_ne hne]
  · have hmem : t ∈ B₂.itermTbl.allocated := (hts.allocated t).mpr (Or.inr ht)
    refine (hR.iterm t hmem).trans ?_
    exact hts.old t fun hmem => hts.fresh t hmem ht

/-! ### `destroy` -/

theorem undoes_disconnectAll (hB : B.Ok) {ts : List Nat} (h : B.disconnectAll ts = .ok B') :
    Undoes B B' := by
  induction ts generalizing B with
  | nil =>
      obtain rfl := Res.ok.inj h
      exact Undoes.refl B
  | cons t ts ih =>
      rw [disconnectAll] at h
      cases hB₁ : B.itermDisconnect t with
      | error code C => rw [hB₁] at h; exact absurd h (by simp)
      | abort => rw [hB₁] at h; exact absurd h (by simp)
      | ok B₁ =>
          rw [hB₁, Res.bind_ok] at h
          have hok : B₁.Ok := (itermDisconnect_sameInsts t B₁ (by rw [hB₁]; rfl)).ok hB
            (itermDisconnect_listsOk hB.toListsOk t B₁ (by rw [hB₁]; rfl))
          exact (undoes_itermDisconnect hB hB₁).trans (ih hok h)

/-- Restored at the origin, an instance that counts as placed keeps the box of a new one. -/
def KeepsNewBox (o : Inst) : Prop := o.flags.status.isPlaced = true ∧ o.x = 0 ∧ o.y = 0

/-- The instances whose destruction is taken back: the stored origin is used as a location, through
a setter that leaves the box of a new instance alone or computes it, and that fails for a fixed one;
and a physical only instance is put in no module. -/
structure DestroyUndone (B : Block) (o : Inst) : Prop where
  xMin : (B.orientedBoundary o).xMin = 0
  yMin : (B.orientedBoundary o).yMin = 0
  fixed : KeepsNewBox o ∨ o.flags.status.isFixed = false
  newBox : KeepsNewBox o →
    o.bbox = Rect.init 0 0 (B.master o.master).width (B.master o.master).height
  box : ¬ KeepsNewBox o → o.bbox = B.instBox o
  module : o.module = 0 ∨ o.flags.physicalOnly = false

/-- A new instance of the name, the master and the iterms of `o`. -/
def recreated (B : Block) (o : Inst) : Inst := B.newInst o.master o.name 0 false 0 o.iterms

/-- The flags and the location of the new instance are set. -/
theorem instSetLocation_recreated {V : Block} (hj : V.journal = none) {i : Nat} {o : Inst}
    (h : DestroyUndone V o) :
    ∃ o₁, (V.setInst i { V.recreated o with flags := o.flags }).instSetLocation i o.x o.y =
        .ok (V.setInst i o₁) ∧
      o₁ = { o with module := V.topModule, hierarchy := false, group := 0, region := 0 } := by
  set C := V.setInst i { V.recreated o with flags := o.flags } with hC
  have hself : C.inst i = { V.recreated o with flags := o.flags } := Function.update_self _ _ _
  have hbound : C.orientedBoundary (C.inst i) = V.orientedBoundary o := by rw [hself]; rfl
  unfold instSetLocation
  simp only []
  rw [hbound, h.xMin, h.yMin, Int.sub_zero, Int.sub_zero]
  by_cases hkeeps : KeepsNewBox o
  · have hbox := h.newBox hkeeps
    obtain ⟨hplaced, hx, hy⟩ := hkeeps
    refine ⟨{ V.recreated o with flags := o.flags }, ?_, ?_⟩
    · unfold instSetOrigin
      simp only []
      rw [if_pos]
      rw [hself]
      exact ⟨hplaced, hx.symm, hy.symm⟩
    · simp [recreated, newInst, createModule, hbox, hx, hy]
  · have hfixed := h.fixed.resolve_left hkeeps
    have hbox := h.box hkeeps
    refine ⟨V.boxed { V.recreated o with flags := o.flags, x := o.x, y := o.y }, ?_, ?_⟩
    · rw [instSetOrigin_eq (U := C) hj]
      · rw [hself]
        simp only [hC, setInst, Function.update_idem, boxed, instBox]
      · rw [hself]
        rintro ⟨hplaced, hx, hy⟩
        exact hkeeps ⟨hplaced, hx.symm, hy.symm⟩
      · rw [hself]
        exact hfixed
    · have hcomputed : V.instBox { V.recreated o with flags := o.flags, x := o.x, y := o.y } =
          o.bbox := hbox.symm
      rw [boxed, hcomputed]
      rfl

@[simp] theorem setInst_inst (B : Block) (i : Nat) (o : Inst) : (B.setInst i o).inst i = o :=
  Function.update_self _ _ _

@[simp] theorem setInst_setInst (B : Block) (i : Nat) (o o' : Inst) :
    (B.setInst i o).setInst i o' = B.setInst i o' := by
  simp [setInst]

theorem moduleAddInst_setInst {V : Block} {i : Nat} {o : Inst} (module : Nat)
    (hphysical : o.flags.physicalOnly = false) (hdont : o.flags.dontTouch = false) :
    (V.setInst i o).moduleAddInst module i = .ok (V.setInst i { o with module := module }) := by
  unfold moduleAddInst
  simp only [setInst_inst, hphysical, hdont, setInst_setInst, Bool.false_eq_true, if_false]
  split_ifs with hmodule
  · rw [← hmodule]
  · rfl

/-- The instance is created anew with the data it had, up to its module and its hierarchy. -/
theorem undoDeleteInst_eq {V : Block} (hj : V.journal = none) {i : Nat} (hi : i ≠ 0) {o : Inst}
    (hcreate : U.instCreate o.master o.name 0 false 0 = some (i, V.setInst i (V.recreated o)))
    (h : DestroyUndone V o) (hdont : o.flags.dontTouch = false) :
    ∃ o', U.undoDeleteInst o.master o.name o.flags o.x o.y o.group o.module o.region =
      .ok (V.setInst i o') ∧ SameInst o o' := by
  obtain ⟨o₁, hlocation, rfl⟩ := instSetLocation_recreated hj (i := i) h
  unfold undoDeleteInst
  simp only [hcreate, if_neg hi, setInst_inst, setInst_setInst, hlocation, Res.bind_ok]
  have hgroup : (if o.group ≠ 0 then V.setInst i { o with
        module := V.topModule, hierarchy := false, group := o.group, region := 0 }
      else V.setInst i { o with
        module := V.topModule, hierarchy := false, group := 0, region := 0 }) =
      V.setInst i { o with module := V.topModule, hierarchy := false, region := 0 } := by
    split_ifs with hg
    · rfl
    · rw [not_not.mp hg]
  rw [hgroup]
  have hregion : ∀ module, (if o.region ≠ 0 then V.setInst i { o with
        module := module, hierarchy := false, region := o.region }
      else V.setInst i { o with module := module, hierarchy := false, region := 0 }) =
      V.setInst i { o with module := module, hierarchy := false } := by
    intro module
    split_ifs with hr
    · rfl
    · rw [not_not.mp hr]
  by_cases hm : o.module = 0
  · refine ⟨{ o with module := V.topModule, hierarchy := false }, ?_, ⟨rfl, fun hh => by simp at hh⟩⟩
    rw [if_neg (not_not.mpr hm), Res.bind_ok]
    simp only [setInst_inst, setInst_setInst, hregion]
  · refine ⟨{ o with hierarchy := false }, ?_, ⟨rfl, fun hh => by simp at hh⟩⟩
    have hmodule := moduleAddInst_setInst (V := V) (i := i) (o := { o with
      module := V.topModule, hierarchy := false, region := 0 }) o.module
      (h.module.resolve_left hm) hdont
    rw [if_pos hm, hmodule, Res.bind_ok]
    simp only [setInst_inst, setInst_setInst, hregion]

/-- Creating an instance, where the name is free and the tables have room. -/
theorem instCreate_eq {m : MasterId} {name : String} {region i : Nat} {physicalOnly : Bool}
    {parentModule : Nat} {T : DbTable} {ts : List Nat} {V : Block} (hname : U.hasInst name = false)
    (hT : U.instTbl.create = some (i, T))
    (hiterms : (({ U with instTbl := T } : Block).record (.createInst m.lib m.id name i)).createITerms
      i 0 (U.master m).mterms.length = some (ts, V)) :
    U.instCreate m name region physicalOnly parentModule =
      some (i, V.setInst i (V.newInst m name region physicalOnly parentModule ts)) := by
  unfold instCreate
  rw [if_neg (by simp [hname]), hT, Option.bind_some]
  simp only [hiterms, Option.map_some]

/-- Undoing the destruction of an instance after its iterms were disconnected. -/
theorem undoes_freeInst (hB : B.Ok) {i : Nat} {T T' : DbTable}
    (hdont : (B.inst i).flags.dontTouch = false)
    (hT : B.itermTbl.destroys (B.inst i).iterms.reverse = some T)
    (hT' : B.instTbl.destroy i = some T') (hok : DestroyUndone B (B.inst i)) :
    Undoes B { (B.freeITerms i T []).record (deleteRecord i (B.inst i)) with instTbl := T' } := by
  refine Undoes.one (r := deleteRecord i (B.inst i)) rfl fun U' hR => ?_
  obtain ⟨-, hi, hall⟩ := hB.instTbl.destroy hT'
  obtain ⟨-, hTmem⟩ := hB.itermTbl.destroys hT
  have hother : ∀ j ∈ B.instTbl.allocated, j ≠ i → SameInst (B.inst j) (U'.inst j) := by
    intro j hj hne
    have hsame := hR.inst j (by
      change j ∈ T'.allocated
      rw [hall]
      exact Finset.mem_erase.mpr ⟨hne, hj⟩)
    change SameInst (Function.update B.inst i _ j) (U'.inst j) at hsame
    rwa [Function.update_of_ne hne] at hsame
  have hname : U'.hasInst (B.inst i).name = false := by
    refine decide_eq_false ?_
    rintro ⟨j, hj, heq⟩
    rw [show U'.instTbl.allocated = T'.allocated from hR.instTbl.allocated, hall,
      Finset.mem_erase] at hj
    rw [(hother j hj.2 hj.1).eq] at heq
    exact hj.1 (hB.names j hj.2 i hi heq)
  -- the tables hand out the ids again, those of the iterms in their order
  obtain ⟨T₁, hT₁, hrestores⟩ := DbTable.undo_destroy hB.instTbl hT' hR.instTbl
  obtain ⟨T₂, hT₂, hrestores'⟩ := DbTable.undo_destroys hB.itermTbl hT hR.itermTbl
  have hi0 : i ≠ 0 := fun h0 => hB.instTbl.zero_notMem (h0 ▸ hi)
  have hlen : (B.inst i).iterms.length = (B.master (B.inst i).master).mterms.length := by
    have h := congrArg List.length (hB.order i hi)
    rwa [List.length_map, List.length_range] at h
  rw [List.reverse_reverse, List.length_reverse, hlen, ← show U'.master = B.master from hR.master]
    at hT₂
  obtain ⟨V, hV⟩ := createITerms_of_creates (B := ({ U' with instTbl := T₁ } : Block).record
    (.createInst (B.inst i).master.lib (B.inst i).master.id (B.inst i).name i)) (i := i) (k := 0) hT₂
  have hbase : (({ U' with instTbl := T₁ } : Block).record
      (.createInst (B.inst i).master.lib (B.inst i).master.id (B.inst i).name i)).ListsOk :=
    { hR.lists with instTbl := (hR.lists.instTbl.create hT₁).1 }
  obtain ⟨hts, -, hVlists⟩ := iTermsCreated hbase hV
  have hVtbl : V.itermTbl = T₂ := by
    have htbl := hts.tbl
    rw [hlen, ← show U'.master = B.master from hR.master] at htbl
    exact (Prod.mk.inj (Option.some.inj (htbl.symm.trans hT₂))).2
  have hVj : V.journal = none := by
    rw [hts.eq]
    change U'.journal.map _ = none
    rw [hR.journal]
    rfl
  have hVmaster : V.master = B.master := by
    rw [hts.eq]
    exact hR.master
  have hok' : DestroyUndone V (B.inst i) := by
    obtain ⟨h1, h2, h3, h4, h5, h6⟩ := hok
    refine ⟨?_, ?_, h3, ?_, ?_, h6⟩
    · rw [orientedBoundary, hVmaster]; exact h1
    · rw [orientedBoundary, hVmaster]; exact h2
    · rw [hVmaster]; exact h4
    · rw [instBox_eq hVmaster]; exact h5
  obtain ⟨o', hundo, hsame⟩ := undoDeleteInst_eq hVj hi0 (instCreate_eq hname hT₁ hV) hok' hdont
  refine ⟨V.setInst i o', hundo, ?_⟩
  have hVinst : V.inst = U'.inst := by rw [hts.eq]; rfl
  have hsameITerm : ∀ t ∈ (B.inst i).iterms, V.iterm t = B.iterm t := by
    refine List.map_inj_left.mp (hts.new.trans ?_)
    rw [hlen, ← List.range_eq_range', ← hB.order i hi, List.map_map]
    refine List.map_congr_left fun t ht => ?_
    rw [Function.comp_apply, ← (hB.instITerms i hi t ht).2]
  have howner : V.netITerms.owner = B.netITerms.owner := hts.netITerms.trans hR.netITerms
  have howner' : V.modNetITerms.owner = B.modNetITerms.owner :=
    hts.modNetITerms.trans hR.modNetITerms
  have hlists : (V.setInst i o').ListsOk := hVlists.setInst i o'
  rw [hts.eq] at hlists ⊢
  refine { hR with
    instTbl := hrestores
    itermTbl := by rw [← hVtbl] at hrestores'; exact hrestores'
    inst := fun j hj => ?_
    iterm := fun t ht => ?_
    netITerms := howner
    modNetITerms := howner'
    lists := hlists
    journal := by rw [← hVj, hts.eq]; rfl }
  · change SameInst (B.inst j) (Function.update U'.inst i o' j)
    rcases eq_or_ne j i with rfl | hne
    · rwa [Function.update_self]
    · rw [Function.update_of_ne hne]
      exact hother j hj hne
  · change V.iterm t = B.iterm t
    by_cases htmem : t ∈ (B.inst i).iterms
    · exact hsameITerm t htmem
    · rw [hts.old t htmem]
      refine hR.iterm t ?_
      exact (hTmem t).mpr ⟨ht, fun h => htmem (List.mem_reverse.mp h)⟩

theorem undoes_instDestroy (hB : B.Ok) {i : Nat} (hok : DestroyUndone B (B.inst i))
    (h : B.instDestroy i = .ok B') : Undoes B B' := by
  obtain ⟨hdont, B₁, T, T', hB₁, hT, hT', rfl⟩ := instDestroy_ok_eq h
  have hsame := disconnectAll_sameInsts _ B₁ (by rw [hB₁]; rfl)
  have hB₁ok : B₁.Ok :=
    hsame.ok hB (disconnectAll_listsOk hB.toListsOk _ B₁ (by rw [hB₁]; rfl))
  refine (undoes_disconnectAll hB hB₁).trans ?_
  have hok₁ : DestroyUndone B₁ (B.inst i) := by
    obtain ⟨h1, h2, h3, h4, h5, h6⟩ := hok
    refine ⟨?_, ?_, h3, ?_, ?_, h6⟩
    · rw [orientedBoundary, hsame.master]; exact h1
    · rw [orientedBoundary, hsame.master]; exact h2
    · rw [hsame.master]; exact h4
    · rw [instBox_eq hsame.master]; exact h5
  rw [← hsame.inst] at hdont hT hok₁ ⊢
  rw [← hsame.itermTbl] at hT
  rw [← hsame.instTbl] at hT'
  exact undoes_freeInst hB₁ok hdont hT hT' hok₁

end Block

end OpenRoad.Db
