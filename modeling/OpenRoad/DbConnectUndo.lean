import OpenRoad.DbUndo

/-!
Undoing the calls that connect and disconnect terminals. Each action is undone where the call that
takes it back reaches the same terminal and net and no check stops it; the calls whose actions are
not taken back are kept out by the hypotheses.
-/

namespace OpenRoad.Db
open LinkedList

namespace Block

variable {B B' U : Block}

/-- Putting an owner back. -/
theorem update_back (f : Nat → Nat) (t n : Nat) (h : f t = n) :
    Function.update (Function.update f t 0) t n = f := by
  rw [Function.update_idem, ← h, Function.update_eq_self]

theorem update_free (f : Nat → Nat) (t n : Nat) (h : f t = 0) :
    Function.update (Function.update f t n) t 0 = f := by
  rw [Function.update_idem, ← h, Function.update_eq_self]

/-! ### Iterms -/

/-- Connecting an iterm that is off its flat net, without a journal. -/
theorem itermConnect_of_free (hj : U.journal = none) {t n : Nat} (hn : n ≠ 0)
    (hfree : U.netITerms.owner t = 0) (hinst : (U.itermInst t).flags.dontTouch = false)
    (hnet : (U.net n).dontTouch = false) :
    U.itermConnect t n = .ok { U with netITerms := U.netITerms.push t n } := by
  unfold itermConnect
  rw [if_neg hn, if_neg (by rw [hfree]; exact hn.symm), if_neg (by simp [hinst]),
    if_neg (by simp [hnet])]
  simp [itermDisconnectDbNet, hfree, record_of_none hj]

theorem itermConnectMod_of_free (hj : U.journal = none) {t m : Nat} (hm : m ≠ 0)
    (hfree : U.modNetITerms.owner t = 0) (hinst : (U.itermInst t).flags.dontTouch = false) :
    U.itermConnectMod t m = .ok { U with modNetITerms := U.modNetITerms.push t m } := by
  unfold itermConnectMod
  rw [if_neg (by rw [hfree]; exact hm.symm)]
  simp [itermDisconnectModNet, hfree, hinst, record_of_none hj]

theorem undoes_itermDisconnectDbNet (hB : B.Ok) {t : Nat} (h : B.itermDisconnectDbNet t = .ok B') :
    Undoes B B' := by
  unfold itermDisconnectDbNet at h
  simp only [] at h
  split_ifs at h with h0 hinst hnet
  · obtain rfl := Res.ok.inj h
    exact Undoes.refl B
  · obtain rfl := Res.ok.inj h
    have ht := hB.netITerms.member t h0
    have hn := hB.netITerms.owner t h0
    refine Undoes.one rfl fun U' hR => ?_
    have howner : U'.netITerms.owner = Function.update B.netITerms.owner t 0 :=
      hR.netITerms.trans (Lists.owner_unlink _ _ _)
    have hfree : U'.netITerms.owner t = 0 := by rw [howner, Function.update_self]
    have hflags : (U'.itermInst t).flags = (B.itermInst t).flags :=
      hR.itermInst_flags (hB.of_lists { hB with netITerms := hB.netITerms.unlink rfl h0 }) ht
    have hconnect := itermConnect_of_free hR.journal h0 hfree
      (by rw [hflags]; exact Bool.eq_false_of_not_eq_true hinst)
      ((congrArg Net.dontTouch (hR.net _ hn)).trans (Bool.eq_false_of_not_eq_true hnet))
    refine ⟨{ U' with netITerms := U'.netITerms.push t (B.netITerms.owner t) }, ?_, ?_⟩
    · simp [undoRecord, undoDisconnectITerm, h0, hconnect]
    · have hback : (U'.netITerms.push t (B.netITerms.owner t)).owner = B.netITerms.owner := by
        rw [Lists.owner_push, howner]
        exact update_back _ _ _ rfl
      exact { hR with
        netITerms := hback
        lists := { hR.lists with
          netITerms := hR.lists.netITerms.push (hR.mem_iterm ht) (hR.mem_net hn) hfree } }

theorem undoes_itermDisconnectModNet (hB : B.Ok) {t : Nat}
    (hok : B.modNetITerms.owner t = 0 ∨ (B.itermInst t).flags.dontTouch = false) :
    Undoes B (B.itermDisconnectModNet t) := by
  unfold itermDisconnectModNet
  simp only []
  split_ifs with h0
  · exact Undoes.refl B
  · have ht := hB.modNetITerms.member t h0
    have hm := hB.modNetITerms.owner t h0
    refine Undoes.one rfl fun U' hR => ?_
    have howner : U'.modNetITerms.owner = Function.update B.modNetITerms.owner t 0 :=
      hR.modNetITerms.trans (Lists.owner_unlink _ _ _)
    have hfree : U'.modNetITerms.owner t = 0 := by rw [howner, Function.update_self]
    have hflags : (U'.itermInst t).flags = (B.itermInst t).flags :=
      hR.itermInst_flags (hB.of_lists { hB with modNetITerms := hB.modNetITerms.unlink rfl h0 }) ht
    have hconnect := itermConnectMod_of_free hR.journal h0 hfree
      (by rw [hflags]; exact hok.resolve_left h0)
    refine ⟨{ U' with modNetITerms := U'.modNetITerms.push t (B.modNetITerms.owner t) }, ?_, ?_⟩
    · simp [undoRecord, undoDisconnectITerm, h0, hconnect]
    · have hback : (U'.modNetITerms.push t (B.modNetITerms.owner t)).owner =
          B.modNetITerms.owner := by
        rw [Lists.owner_push, howner]
        exact update_back _ _ _ rfl
      exact { hR with
        modNetITerms := hback
        lists := { hR.lists with
          modNetITerms := hR.lists.modNetITerms.push (hR.mem_iterm ht) (hR.mem_modNet hm) hfree } }

/-- The last step of `dbITerm::connect(dbNet*)`. -/
theorem undoes_itermPush (hB : B.Ok) {t n : Nat} (ht : t ∈ B.itermTbl.allocated)
    (hn : n ∈ B.netTbl.allocated) (hfree : B.netITerms.owner t = 0)
    (hinst : (B.itermInst t).flags.dontTouch = false) (hnet : (B.net n).dontTouch = false) :
    Undoes B { B.record (.connectITerm t n 0) with netITerms := B.netITerms.push t n } := by
  have hn0 := hB.netITerms.owner_ne_zero hn
  refine Undoes.one rfl fun U' hR => ?_
  have howner : U'.netITerms.owner = Function.update B.netITerms.owner t n := hR.netITerms
  have hself : U'.netITerms.owner t = n := by rw [howner, Function.update_self]
  have hflags : (U'.itermInst t).flags = (B.itermInst t).flags :=
    hR.itermInst_flags (hB.of_lists { hB with netITerms := hB.netITerms.push ht hn hfree }) ht
  have hnet' : (U'.net n).dontTouch = false := (congrArg Net.dontTouch (hR.net _ hn)).trans hnet
  have hback : (U'.netITerms.unlink t n).owner = B.netITerms.owner := by
    rw [Lists.owner_unlink, howner]
    exact update_free _ _ _ hfree
  refine ⟨{ U' with netITerms := U'.netITerms.unlink t n }, ?_, { hR with
    netITerms := hback
    lists := { hR.lists with netITerms := hR.lists.netITerms.unlink hself hn0 } }⟩
  simp [undoRecord, undoConnectITerm, itermDisconnectDbNet, hself, hn0, hflags, hinst, hnet',
    hR.record]

/-- The last step of `dbITerm::connect(dbModNet*)`. -/
theorem undoes_itermPushMod (hB : B.Ok) {t m : Nat} (hm : m ∈ B.modNetTbl.allocated) (hfree : B.modNetITerms.owner t = 0) :
    Undoes B { B.record (.connectITerm t 0 m) with modNetITerms := B.modNetITerms.push t m } := by
  have hm0 := hB.modNetITerms.owner_ne_zero hm
  refine Undoes.one rfl fun U' hR => ?_
  have howner : U'.modNetITerms.owner = Function.update B.modNetITerms.owner t m := hR.modNetITerms
  have hself : U'.modNetITerms.owner t = m := by rw [howner, Function.update_self]
  have hback : (U'.modNetITerms.unlink t m).owner = B.modNetITerms.owner := by
    rw [Lists.owner_unlink, howner]
    exact update_free _ _ _ hfree
  refine ⟨{ U' with modNetITerms := U'.modNetITerms.unlink t m }, ?_, { hR with
    modNetITerms := hback
    lists := { hR.lists with modNetITerms := hR.lists.modNetITerms.unlink hself hm0 } }⟩
  simp [undoRecord, undoConnectITerm, itermDisconnectModNet, hself, hm0, hR.record]

theorem undoes_itermConnect (hB : B.Ok) {t n : Nat} (ht : t ∈ B.itermTbl.allocated)
    (hn : n ≠ 0 → n ∈ B.netTbl.allocated) (h : B.itermConnect t n = .ok B') : Undoes B B' := by
  unfold itermConnect at h
  split_ifs at h with h0 h1 hinst hnet
  · obtain rfl := Res.ok.inj h
    exact Undoes.refl B
  · cases hB₁ : B.itermDisconnectDbNet t with
    | error code B₁ => rw [hB₁] at h; exact absurd h (by simp)
    | abort => rw [hB₁] at h; exact absurd h (by simp)
    | ok B₁ =>
        rw [hB₁, Res.bind_ok] at h
        obtain rfl := Res.ok.inj h
        have hundoes := undoes_itermDisconnectDbNet hB hB₁
        have hlists := itermDisconnectDbNet_listsOk hB.toListsOk t B₁ (by rw [hB₁]; rfl)
        obtain ⟨howner, heq⟩ := itermDisconnectDbNet_ok hB₁
        rw [heq] at hundoes hlists ⊢
        refine hundoes.trans (undoes_itermPush (hB.of_lists hlists) ht (hn h0) ?_
          (Bool.eq_false_of_not_eq_true hinst) (Bool.eq_false_of_not_eq_true hnet))
        change B₁.netITerms.owner t = 0
        rw [howner, Function.update_self]

theorem undoes_itermConnectMod (hB : B.Ok) {t m : Nat} (hm : m ∈ B.modNetTbl.allocated)
    (hok : B.modNetITerms.owner t = m ∨ (B.itermInst t).flags.dontTouch = false)
    (h : B.itermConnectMod t m = .ok B') : Undoes B B' := by
  unfold itermConnectMod at h
  simp only [] at h
  split_ifs at h with h1 hinst
  · obtain rfl := Res.ok.inj h
    exact Undoes.refl B
  · obtain rfl := Res.ok.inj h
    have hundoes := undoes_itermDisconnectModNet hB (t := t) (Or.inr (hok.resolve_left h1))
    have hlists := itermDisconnectModNet_listsOk hB.toListsOk t
    have howner := itermDisconnectModNet_owner B t
    have heq := itermDisconnectModNet_eq B t
    generalize B.itermDisconnectModNet t = B₁ at hundoes hlists howner heq ⊢
    rw [heq] at hundoes hlists ⊢
    refine hundoes.trans (undoes_itermPushMod (hB.of_lists hlists) hm ?_)
    change B₁.modNetITerms.owner t = 0
    rw [howner, Function.update_self]

/-- On the list of a net, if there is one. -/
def pushIf (s : Lists) (t n : Nat) : Lists := if n = 0 then s else s.push t n

theorem owner_pushIf (s : Lists) (t n : Nat) (h : s.owner t = 0) :
    (pushIf s t n).owner = Function.update s.owner t n := by
  unfold pushIf
  split_ifs with h0
  · rw [h0, ← h, Function.update_eq_self]
  · rfl

theorem over_pushIf {s : Lists} {members owners : Finset Nat} (h : s.Over members owners) {t n : Nat}
    (ht : n ≠ 0 → t ∈ members) (hn : n ≠ 0 → n ∈ owners) (howner : s.owner t = 0) :
    (pushIf s t n).Over members owners := by
  unfold pushIf
  split_ifs with h0
  · exact h
  · exact h.push (ht h0) (hn h0) howner

/-- Undoing the action of `dbITerm::disconnect`. -/
theorem undoDisconnectITerm_of_free (hj : U.journal = none) {t n m : Nat}
    (hfree : U.netITerms.owner t = 0) (hfree' : U.modNetITerms.owner t = 0)
    (hinst : (U.itermInst t).flags.dontTouch = false)
    (hnet : n ≠ 0 → (U.net n).dontTouch = false) :
    U.undoDisconnectITerm t n m = .ok { U with
      netITerms := pushIf U.netITerms t n
      modNetITerms := pushIf U.modNetITerms t m } := by
  have hmod : ∀ V : Block, V.journal = none → V.modNetITerms.owner t = 0 →
      (V.itermInst t).flags.dontTouch = false →
      (if m ≠ 0 then V.itermConnectMod t m else .ok V) =
        .ok { V with modNetITerms := pushIf V.modNetITerms t m } := by
    intro V hV hVfree hVinst
    by_cases hm : m = 0
    · simp [hm, pushIf]
    · rw [if_pos hm, itermConnectMod_of_free hV hm hVfree hVinst, pushIf, if_neg hm]
  unfold undoDisconnectITerm
  by_cases hn : n = 0
  · have hpush : pushIf U.netITerms t n = U.netITerms := by rw [pushIf, if_pos hn]
    rw [if_neg (by simpa using hn), Res.bind_ok, hmod U hj hfree' hinst, hpush]
  · have hpush : pushIf U.netITerms t n = U.netITerms.push t n := by rw [pushIf, if_neg hn]
    rw [if_pos hn, itermConnect_of_free hj hn hfree hinst (hnet hn), Res.bind_ok, hpush]
    exact hmod { U with netITerms := U.netITerms.push t n } hj hfree' hinst

theorem undoes_itermDisconnect (hB : B.Ok) {t : Nat} (h : B.itermDisconnect t = .ok B') :
    Undoes B B' := by
  unfold itermDisconnect at h
  simp only [] at h
  split_ifs at h with h0 hinst hnet
  · obtain rfl := Res.ok.inj h
    exact Undoes.refl B
  · obtain rfl := Res.ok.inj h
    have ht : t ∈ B.itermTbl.allocated := by
      by_cases h1 : B.netITerms.owner t = 0
      · exact hB.modNetITerms.member t fun h2 => h0 ⟨h1, h2⟩
      · exact hB.netITerms.member t h1
    refine Undoes.one rfl fun U' hR => ?_
    have howner : U'.netITerms.owner = Function.update B.netITerms.owner t 0 :=
      hR.netITerms.trans (unlinkIf_owner _ _)
    have howner' : U'.modNetITerms.owner = Function.update B.modNetITerms.owner t 0 :=
      hR.modNetITerms.trans (unlinkIf_owner _ _)
    have hfree : U'.netITerms.owner t = 0 := by rw [howner, Function.update_self]
    have hfree' : U'.modNetITerms.owner t = 0 := by rw [howner', Function.update_self]
    have hflags : (U'.itermInst t).flags = (B.itermInst t).flags :=
      hR.itermInst_flags (hB.of_lists { hB with
        netITerms := ListsOk.unlinkIf hB.netITerms rfl
        modNetITerms := ListsOk.unlinkIf hB.modNetITerms rfl }) ht
    refine ⟨_, undoDisconnectITerm_of_free hR.journal hfree hfree'
      (by rw [hflags]; exact Bool.eq_false_of_not_eq_true hinst) (fun hn => ?_), { hR with
        netITerms := ?_
        modNetITerms := ?_
        lists := { hR.lists with
          netITerms := over_pushIf hR.lists.netITerms (fun _ => hR.mem_iterm ht)
            (fun hn => hR.mem_net (hB.netITerms.owner t hn)) hfree
          modNetITerms := over_pushIf hR.lists.modNetITerms (fun _ => hR.mem_iterm ht)
            (fun hm => hR.mem_modNet (hB.modNetITerms.owner t hm)) hfree' } }⟩
    · rw [show U'.net _ = B.net _ from hR.net _ (hB.netITerms.owner t hn)]
      exact Bool.eq_false_of_not_eq_true fun hdont => hnet ⟨hn, hdont⟩
    · rw [owner_pushIf _ _ _ hfree, howner]
      exact update_back _ _ _ rfl
    · rw [owner_pushIf _ _ _ hfree', howner']
      exact update_back _ _ _ rfl

/-! ### Bterms -/

theorem btermConnect_of_free (hj : U.journal = none) {b n : Nat} (hfree : U.netBTerms.owner b = 0)
    (hnet : (U.net n).dontTouch = false) :
    U.btermConnect b n = .ok { U with netBTerms := U.netBTerms.push b n } := by
  unfold btermConnect
  rw [if_neg (by simp [hnet])]
  simp [btermDisconnectDbNet, hfree, btermConnectNet, record_of_none hj]

theorem undoes_btermDisconnectNet (hB : B.Ok) {b : Nat}
    (hnet : (B.net (B.netBTerms.owner b)).dontTouch = false) :
    Undoes B (B.btermDisconnectNet b) := by
  unfold btermDisconnectNet
  simp only []
  split_ifs with h0
  · exact Undoes.refl B
  · have hb := hB.netBTerms.member b h0
    have hn := hB.netBTerms.owner b h0
    refine Undoes.one rfl fun U' hR => ?_
    have howner : U'.netBTerms.owner = Function.update B.netBTerms.owner b 0 :=
      hR.netBTerms.trans (Lists.owner_unlink _ _ _)
    have hfree : U'.netBTerms.owner b = 0 := by rw [howner, Function.update_self]
    have hconnect := btermConnect_of_free hR.journal hfree
      ((congrArg Net.dontTouch (hR.net _ hn)).trans hnet)
    refine ⟨{ U' with netBTerms := U'.netBTerms.push b (B.netBTerms.owner b) }, ?_, { hR with
      netBTerms := ?_
      lists := { hR.lists with
        netBTerms := hR.lists.netBTerms.push (hR.mem_bterm hb) (hR.mem_net hn) hfree } }⟩
    · simp [undoRecord, undoDisconnectBTerm, h0, hconnect]
    · rw [Lists.owner_push, howner]
      exact update_back _ _ _ rfl

theorem undoes_btermDisconnectDbNet (hB : B.Ok) {b : Nat} (h : B.btermDisconnectDbNet b = .ok B') :
    Undoes B B' := by
  have heq := btermDisconnectDbNet_ok h
  unfold btermDisconnectDbNet at h
  simp only [] at h
  split_ifs at h with h0 hnet
  · obtain rfl := Res.ok.inj h
    exact Undoes.refl B
  · rw [heq]
    exact undoes_btermDisconnectNet hB (Bool.eq_false_of_not_eq_true hnet)

theorem btermConnectMod_eq (hj : U.journal = none) {b m : Nat} (hne : U.modNetBTerms.owner b ≠ m) :
    U.btermConnectMod b m = { U with
      modNetBTerms := (unlinkIf U.modNetBTerms b (U.modNetBTerms.owner b)).push b m } := by
  have hdisconnect : U.btermDisconnectModNet b = { U with
      modNetBTerms := unlinkIf U.modNetBTerms b (U.modNetBTerms.owner b) } := by
    unfold btermDisconnectModNet unlinkIf
    simp only []
    split_ifs
    · rfl
    · rw [record_of_none hj]
  rw [btermConnectMod, if_neg hne, hdisconnect, btermConnectModNet, record_of_none]
  exact hj

theorem undoes_btermDisconnectModNet (hB : B.Ok) (b : Nat) :
    Undoes B (B.btermDisconnectModNet b) := by
  unfold btermDisconnectModNet
  simp only []
  split_ifs with h0
  · exact Undoes.refl B
  · have hb := hB.modNetBTerms.member b h0
    have hm := hB.modNetBTerms.owner b h0
    refine Undoes.one rfl fun U' hR => ?_
    have howner : U'.modNetBTerms.owner = Function.update B.modNetBTerms.owner b 0 :=
      hR.modNetBTerms.trans (Lists.owner_unlink _ _ _)
    have hfree : U'.modNetBTerms.owner b = 0 := by rw [howner, Function.update_self]
    have hconnect := btermConnectMod_eq hR.journal (b := b) (m := B.modNetBTerms.owner b)
      (by rw [hfree]; exact Ne.symm h0)
    rw [hfree, unlinkIf, if_pos rfl] at hconnect
    refine ⟨{ U' with modNetBTerms := U'.modNetBTerms.push b (B.modNetBTerms.owner b) }, ?_,
      { hR with
        modNetBTerms := ?_
        lists := { hR.lists with
          modNetBTerms := hR.lists.modNetBTerms.push (hR.mem_bterm hb) (hR.mem_modNet hm) hfree } }⟩
    · simp [undoRecord, undoDisconnectBTerm, h0, hconnect]
    · rw [Lists.owner_push, howner]
      exact update_back _ _ _ rfl

/-- Undoing a connection takes the bterm off both nets, so it may be on the flat one only. -/
theorem undoes_btermConnectNet (hB : B.Ok) {b n : Nat} (hn : n ∈ B.netTbl.allocated)
    (hfree : B.netBTerms.owner b = 0) (hmod : B.modNetBTerms.owner b = 0)
    (hnet : (B.net n).dontTouch = false) : Undoes B (B.btermConnectNet b n) := by
  have hn0 := hB.netBTerms.owner_ne_zero hn
  refine Undoes.one rfl fun U' hR => ?_
  have howner : U'.netBTerms.owner = Function.update B.netBTerms.owner b n := hR.netBTerms
  have hself : U'.netBTerms.owner b = n := by rw [howner, Function.update_self]
  have hmod' : U'.modNetBTerms.owner b = 0 := by
    rw [show U'.modNetBTerms.owner = B.modNetBTerms.owner from hR.modNetBTerms, hmod]
  have hnet' : (U'.net n).dontTouch = false := (congrArg Net.dontTouch (hR.net _ hn)).trans hnet
  refine ⟨{ U' with netBTerms := U'.netBTerms.unlink b n }, ?_, { hR with
    netBTerms := ?_
    lists := { hR.lists with netBTerms := hR.lists.netBTerms.unlink hself hn0 } }⟩
  · simp [undoRecord, btermDisconnect, btermDisconnectNet, btermDisconnectModNet, hself, hn0, hnet',
      hmod', hR.record]
  · rw [Lists.owner_unlink, howner]
    exact update_free _ _ _ hfree

theorem undoes_btermConnect (hB : B.Ok) {b n : Nat} (hn : n ∈ B.netTbl.allocated)
    (hmod : B.modNetBTerms.owner b = 0) (h : B.btermConnect b n = .ok B') : Undoes B B' := by
  unfold btermConnect at h
  split_ifs at h with hnet
  cases hB₁ : B.btermDisconnectDbNet b with
  | error code B₁ => rw [hB₁] at h; exact absurd h (by simp)
  | abort => rw [hB₁] at h; exact absurd h (by simp)
  | ok B₁ =>
      rw [hB₁, Res.bind_ok] at h
      obtain rfl := Res.ok.inj h
      have hundoes : Undoes B B₁ := undoes_btermDisconnectDbNet hB hB₁
      have hlists := btermDisconnectDbNet_listsOk hB.toListsOk b B₁ (by rw [hB₁]; rfl)
      obtain rfl := btermDisconnectDbNet_ok hB₁
      have howner := btermDisconnectNet_owner B b
      have heq := btermDisconnectNet_eq B b
      generalize B.btermDisconnectNet b = B₁ at hundoes hlists howner heq ⊢
      rw [heq] at hundoes hlists ⊢
      refine hundoes.trans (undoes_btermConnectNet (hB.of_lists hlists) hn ?_ hmod
        (Bool.eq_false_of_not_eq_true hnet))
      change B₁.netBTerms.owner b = 0
      rw [howner, Function.update_self]

theorem undoes_btermDisconnect (hB : B.Ok) {b : Nat} (h : B.btermDisconnect b = .ok B') :
    Undoes B B' := by
  unfold btermDisconnect at h
  simp only [] at h
  split_ifs at h with h0 hnet
  · obtain rfl := Res.ok.inj h
    exact Undoes.refl B
  · obtain rfl := Res.ok.inj h
    have hundoes := undoes_btermDisconnectNet hB (Bool.eq_false_of_not_eq_true hnet)
    have hlists := btermDisconnectNet_listsOk hB.toListsOk b
    have heq := btermDisconnectNet_eq B b
    generalize B.btermDisconnectNet b = B₁ at hundoes hlists heq ⊢
    rw [heq] at hundoes hlists ⊢
    exact hundoes.trans (undoes_btermDisconnectModNet (hB.of_lists hlists) b)

/-- Undoing the connection to a hierarchical net does nothing to a bterm that is on no flat net; it
is then taken off that net by undoing the disconnection from the net before, so there must be one. -/
theorem undoes_btermConnectMod (hB : B.Ok) {b m : Nat} (hb : b ∈ B.btermTbl.allocated)
    (hm : m ∈ B.modNetTbl.allocated)
    (hok : B.modNetBTerms.owner b = m ∨ (B.netBTerms.owner b = 0 ∧ B.modNetBTerms.owner b ≠ 0)) :
    Undoes B (B.btermConnectMod b m) := by
  unfold btermConnectMod
  split_ifs with h1
  · exact Undoes.refl B
  obtain ⟨hnet, h0⟩ := hok.resolve_left h1
  set c := B.modNetBTerms.owner b with hc
  have hcn := hB.modNetBTerms.owner b h0
  have hm0 := hB.modNetBTerms.owner_ne_zero hm
  have hdisconnect : B.btermDisconnectModNet b =
      { B.record (.disconnectBTerm b 0 c) with modNetBTerms := B.modNetBTerms.unlink b c } := by
    rw [btermDisconnectModNet, if_neg h0]
  rw [hdisconnect]
  refine ⟨[.connectBTerm b 0 m, .disconnectBTerm b 0 c], ?_, fun U' hR => ?_⟩
  · exact Option.map_map _ _ _
  have howner : U'.modNetBTerms.owner = Function.update B.modNetBTerms.owner b m := by
    refine hR.modNetBTerms.trans ?_
    change Function.update (B.modNetBTerms.unlink b c).owner b m = _
    rw [Lists.owner_unlink, Function.update_idem]
  have hself : U'.modNetBTerms.owner b = m := by rw [howner, Function.update_self]
  have hnet' : U'.netBTerms.owner b = 0 := by
    rw [show U'.netBTerms.owner = B.netBTerms.owner from hR.netBTerms, hnet]
  have hconnect := btermConnectMod_eq hR.journal (b := b) (m := c)
    (by rw [hself]; exact Ne.symm h1)
  rw [hself, unlinkIf, if_neg hm0] at hconnect
  refine ⟨{ U' with modNetBTerms := (U'.modNetBTerms.unlink b m).push b c }, ?_, { hR with
    modNetBTerms := ?_
    lists := { hR.lists with
      modNetBTerms := (hR.lists.modNetBTerms.unlink hself hm0).push (hR.mem_bterm hb)
        (hR.mem_modNet hcn) (by rw [Lists.owner_unlink, Function.update_self]) } }⟩
  · simp [undo, undoRecord, btermDisconnect, hnet', undoDisconnectBTerm, h0, hconnect]
  · rw [Lists.owner_push, Lists.owner_unlink, howner]
    simp [hc]

/-! ### Module terminals -/

theorem undoes_modITermConnect (hB : B.Ok) {t m : Nat} (hm : m ∈ B.modNetTbl.allocated)
    (hok : B.modNetModITerms.owner t = m ∨ B.modNetModITerms.owner t = 0) :
    Undoes B (B.modITermConnect t m) := by
  unfold modITermConnect
  split_ifs with h1
  · exact Undoes.refl B
  have hfree := hok.resolve_left h1
  have hm0 := hB.modNetModITerms.owner_ne_zero hm
  refine Undoes.one rfl fun U' hR => ?_
  have howner : U'.modNetModITerms.owner = Function.update B.modNetModITerms.owner t m :=
    hR.modNetModITerms
  have hself : U'.modNetModITerms.owner t = m := by rw [howner, Function.update_self]
  refine ⟨{ U' with modNetModITerms := U'.modNetModITerms.unlinkByPrev t m }, ?_, { hR with
    modNetModITerms := ?_
    lists := { hR.lists with
      modNetModITerms := hR.lists.modNetModITerms.unlinkByPrev hself hm0 } }⟩
  · simp [undoRecord, modITermDisconnect, hself, hm0, hR.record]
  · rw [Lists.owner_unlinkByPrev, howner]
    exact update_free _ _ _ hfree

theorem undoes_modITermDisconnect (hB : B.Ok) (t : Nat) : Undoes B (B.modITermDisconnect t) := by
  unfold modITermDisconnect
  simp only []
  split_ifs with h0
  · exact Undoes.refl B
  have ht := hB.modNetModITerms.member t h0
  have hm := hB.modNetModITerms.owner t h0
  refine Undoes.one rfl fun U' hR => ?_
  have howner : U'.modNetModITerms.owner = Function.update B.modNetModITerms.owner t 0 :=
    hR.modNetModITerms
  have hfree : U'.modNetModITerms.owner t = 0 := by rw [howner, Function.update_self]
  refine ⟨{ U' with modNetModITerms := U'.modNetModITerms.push t (B.modNetModITerms.owner t) }, ?_,
    { hR with
      modNetModITerms := ?_
      lists := { hR.lists with
        modNetModITerms := hR.lists.modNetModITerms.push (hR.mem_modITerm ht) (hR.mem_modNet hm)
          hfree } }⟩
  · simp [undoRecord, h0, modITermConnect, hfree, Ne.symm h0, hR.record]
  · rw [Lists.owner_push, howner]
    exact update_back _ _ _ rfl

theorem undoes_modBTermConnect (hB : B.Ok) {t m : Nat} (hm : m ∈ B.modNetTbl.allocated)
    (hok : B.modNetModBTerms.owner t = m ∨ B.modNetModBTerms.owner t = 0) :
    Undoes B (B.modBTermConnect t m) := by
  unfold modBTermConnect
  split_ifs with h1
  · exact Undoes.refl B
  have hfree := hok.resolve_left h1
  have hm0 := hB.modNetModBTerms.owner_ne_zero hm
  refine Undoes.one rfl fun U' hR => ?_
  have howner : U'.modNetModBTerms.owner = Function.update B.modNetModBTerms.owner t m :=
    hR.modNetModBTerms
  have hself : U'.modNetModBTerms.owner t = m := by rw [howner, Function.update_self]
  refine ⟨{ U' with
    modNetModBTerms := (U'.modNetModBTerms.unlinkByPrev t m).clearMember t }, ?_, { hR with
      modNetModBTerms := ?_
      lists := { hR.lists with
        modNetModBTerms := (hR.lists.modNetModBTerms.unlinkByPrev hself hm0).clearMember
          (Function.update_self _ _ _) } }⟩
  · simp [undoRecord, modBTermDisconnect, hself, hm0, hR.record]
  · rw [Lists.owner_clearMember, Lists.owner_unlinkByPrev, howner, Function.update_idem]
    exact update_free _ _ _ hfree

theorem undoes_modBTermDisconnect (hB : B.Ok) (t : Nat) : Undoes B (B.modBTermDisconnect t) := by
  unfold modBTermDisconnect
  simp only []
  split_ifs with h0
  · exact Undoes.refl B
  have ht := hB.modNetModBTerms.member t h0
  have hm := hB.modNetModBTerms.owner t h0
  refine Undoes.one rfl fun U' hR => ?_
  have howner : U'.modNetModBTerms.owner = Function.update B.modNetModBTerms.owner t 0 := by
    refine hR.modNetModBTerms.trans ?_
    change Function.update (Function.update B.modNetModBTerms.owner t 0) t 0 = _
    exact Function.update_idem _ _ _
  have hfree : U'.modNetModBTerms.owner t = 0 := by rw [howner, Function.update_self]
  refine ⟨{ U' with modNetModBTerms := U'.modNetModBTerms.push t (B.modNetModBTerms.owner t) }, ?_,
    { hR with
      modNetModBTerms := ?_
      lists := { hR.lists with
        modNetModBTerms := hR.lists.modNetModBTerms.push (hR.mem_modBTerm ht) (hR.mem_modNet hm)
          hfree } }⟩
  · simp [undoRecord, h0, modBTermConnect, hfree, Ne.symm h0, hR.record]
  · rw [Lists.owner_push, howner]
    exact update_back _ _ _ rfl

/-! ### Nets -/

theorem undoes_netCreate (hB : B.Ok) {name : String} {skip : Bool} {n : Nat}
    (h : B.netCreate name skip = some (n, B')) : Undoes B B' := by
  unfold netCreate at h
  split_ifs at h with hname
  · obtain ⟨-, rfl⟩ : 0 = n ∧ B = B' := by simpa using h
    exact Undoes.refl B
  obtain ⟨⟨n₁, T⟩, hcreate, heq⟩ := Option.bind_eq_some_iff.mp h
  obtain ⟨rfl, rfl⟩ := Prod.mk.inj (Option.some.inj heq)
  obtain ⟨-, hn0, hn, hall⟩ := hB.netTbl.create hcreate
  refine Undoes.one rfl fun U' hR => ?_
  have hI : ∀ t, U'.netITerms.owner t ≠ n₁ := fun t => by
    rw [show U'.netITerms.owner = B.netITerms.owner from hR.netITerms]
    exact hB.netITerms.owner_ne hn hn0
  have hBT : ∀ b, U'.netBTerms.owner b ≠ n₁ := fun b => by
    rw [show U'.netBTerms.owner = B.netBTerms.owner from hR.netBTerms]
    exact hB.netBTerms.owner_ne hn hn0
  have hnet : U'.net n₁ = ⟨name, false⟩ := by
    refine (hR.net n₁ (by change n₁ ∈ T.allocated; rw [hall]; simp)).trans ?_
    exact Function.update_self _ _ _
  obtain ⟨T₀, hdestroy, hrestores⟩ := DbTable.undo_create hB.netTbl hcreate hR.netTbl
  have hallU : T₀.allocated = U'.netTbl.allocated.erase n₁ :=
    (hR.lists.netTbl.destroy hdestroy).2.2
  refine ⟨{ U' with netTbl := T₀ }, ?_, { hR with
    netTbl := hrestores
    net := fun a ha => ?_
    lists := { hR.lists with
      netTbl := (hR.lists.netTbl.destroy hdestroy).1
      netITerms := ?_
      netBTerms := ?_ } }⟩
  · have hno : ∀ fuel, U'.disconnectITerms 0 fuel = .ok U' := fun fuel => by cases fuel <;> rfl
    have hno' : ∀ fuel, U'.destroyBTerms 0 fuel = .ok U' := fun fuel => by cases fuel <;> rfl
    simp [undoRecord, netDestroy, hnet, hR.lists.netITerms.head_eq_zero hn0 hI,
      hR.lists.netBTerms.head_eq_zero hn0 hBT, hno, hno', hR.record, hdestroy]
  · have hne : a ≠ n₁ := fun heq => hn (heq ▸ ha)
    refine (hR.net a (by change a ∈ T.allocated; rw [hall]; exact Finset.mem_insert_of_mem ha)).trans ?_
    exact Function.update_of_ne hne _ _
  · change U'.netITerms.Over U'.itermTbl.allocated T₀.allocated
    rw [hallU]
    exact hR.lists.netITerms.eraseOwner hI
  · change U'.netBTerms.Over U'.btermTbl.allocated T₀.allocated
    rw [hallU]
    exact hR.lists.netBTerms.eraseOwner hBT

theorem undoes_modNetCreate (hB : B.Ok) {parent : Nat} {name : String} {m : Nat}
    (h : B.modNetCreate parent name = some (m, B')) : Undoes B B' := by
  unfold modNetCreate at h
  obtain ⟨⟨m₁, T⟩, hcreate, heq⟩ := Option.bind_eq_some_iff.mp h
  obtain ⟨rfl, rfl⟩ := Prod.mk.inj (Option.some.inj heq)
  obtain ⟨-, hm0, hm, hall⟩ := hB.modNetTbl.create hcreate
  refine Undoes.one rfl fun U' hR => ?_
  obtain ⟨T₀, hdestroy, hrestores⟩ := DbTable.undo_create hB.modNetTbl hcreate hR.modNetTbl
  have hallU : T₀.allocated = U'.modNetTbl.allocated.erase m₁ :=
    (hR.lists.modNetTbl.destroy hdestroy).2.2
  -- no terminal was put on the new net
  have hlists : ∀ {s s' : Lists} {members members' : Finset Nat},
      s.Over members B.modNetTbl.allocated → s'.owner = (s.clearOwner m₁).owner →
      s'.Over members' U'.modNetTbl.allocated → s'.Over members' T₀.allocated := by
    intro s s' members members' hs howner hs'
    rw [hallU]
    refine hs'.eraseOwner fun t => ?_
    rw [howner]
    exact hs.owner_ne hm hm0
  refine ⟨{ U' with modNetTbl := T₀ }, ?_, { hR with
    modNetTbl := hrestores
    modNet := fun a ha => ?_
    lists := { hR.lists with
      modNetTbl := (hR.lists.modNetTbl.destroy hdestroy).1
      modNetITerms := hlists hB.modNetITerms hR.modNetITerms hR.lists.modNetITerms
      modNetBTerms := hlists hB.modNetBTerms hR.modNetBTerms hR.lists.modNetBTerms
      modNetModITerms := hlists hB.modNetModITerms hR.modNetModITerms hR.lists.modNetModITerms
      modNetModBTerms := hlists hB.modNetModBTerms hR.modNetModBTerms hR.lists.modNetModBTerms } }⟩
  · simp [undoRecord, modNetDestroy, hR.record, hdestroy]
  · have hne : a ≠ m₁ := fun heq => hm (heq ▸ ha)
    refine (hR.modNet a
      (by change a ∈ T.allocated; rw [hall]; exact Finset.mem_insert_of_mem ha)).trans ?_
    exact Function.update_of_ne hne _ _

end Block

end OpenRoad.Db
