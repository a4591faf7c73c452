import OpenRoad.DbJournal
import OpenRoad.DbTableSpec

/-!
The lists of terminals are consistent as long as two calls are avoided: destroying a bterm that is on
a hierarchical net, and connecting an iterm of a `dont_touch` instance to one.
-/

namespace OpenRoad.Db
open LinkedList

/-- Whether the call returns or throws, the state it leaves satisfies `P`. -/
def Res.All {σ : Type} (P : σ → Prop) (r : Res σ) : Prop := ∀ s, r.state? = some s → P s

theorem Res.all_ok {σ : Type} {P : σ → Prop} {s : σ} (h : P s) : (Res.ok s).All P := by
  intro s' hs'
  obtain rfl : s = s' := by simpa [Res.state?] using hs'
  exact h

theorem Res.all_error {σ : Type} {P : σ → Prop} {code : Nat} {s : σ} (h : P s) :
    (Res.error code s).All P := by
  intro s' hs'
  obtain rfl : s = s' := by simpa [Res.state?] using hs'
  exact h

theorem Res.all_abort {σ : Type} {P : σ → Prop} : (Res.abort : Res σ).All P := by
  intro s' hs'
  simp [Res.state?] at hs'

theorem Res.all_ofCreate {σ : Type} {P : σ → Prop} {r : Option (Nat × σ)}
    (h : ∀ id s, r = some (id, s) → P s) : (Res.ofCreate r).All P := by
  cases r with
  | none => exact Res.all_abort
  | some r => exact Res.all_ok (h r.1 r.2 rfl)

theorem Res.All.bind {σ : Type} {P : σ → Prop} {r : Res σ} {f : σ → Res σ} (hr : r.All P)
    (hf : ∀ s, r = .ok s → P s → (f s).All P) : (r.bind f).All P := by
  cases r with
  | ok s => exact hf s rfl (hr s rfl)
  | error code s => exact hr
  | abort => exact Res.all_abort

namespace Block

/-- Each of the six families of lists holds live terminals, on the lists of live nets. -/
structure ListsOk (B : Block) : Prop where
  instTbl : B.instTbl.Ok
  netTbl : B.netTbl.Ok
  modNetTbl : B.modNetTbl.Ok
  itermTbl : B.itermTbl.Ok
  btermTbl : B.btermTbl.Ok
  modITermTbl : B.modITermTbl.Ok
  modBTermTbl : B.modBTermTbl.Ok
  netITerms : B.netITerms.Over B.itermTbl.allocated B.netTbl.allocated
  modNetITerms : B.modNetITerms.Over B.itermTbl.allocated B.modNetTbl.allocated
  netBTerms : B.netBTerms.Over B.btermTbl.allocated B.netTbl.allocated
  modNetBTerms : B.modNetBTerms.Over B.btermTbl.allocated B.modNetTbl.allocated
  modNetModITerms : B.modNetModITerms.Over B.modITermTbl.allocated B.modNetTbl.allocated
  modNetModBTerms : B.modNetModBTerms.Over B.modBTermTbl.allocated B.modNetTbl.allocated

variable {B : Block}

theorem ListsOk.record (h : B.ListsOk) (r : Record) : (B.record r).ListsOk := { h with }

theorem ListsOk.setInst (h : B.ListsOk) (i : Nat) (o : Inst) : (B.setInst i o).ListsOk := { h with }

theorem ListsOk.unlinkIf {s : Lists} {members owners : Finset Nat} (h : s.Over members owners)
    {t n : Nat} (hn : s.owner t = n) : (unlinkIf s t n).Over members owners := by
  unfold Block.unlinkIf
  split_ifs with h0
  · exact h
  · exact h.unlink hn h0

/-! ### Iterms -/

theorem itermDisconnectDbNet_listsOk (h : B.ListsOk) (t : Nat) :
    (B.itermDisconnectDbNet t).All ListsOk := by
  unfold itermDisconnectDbNet
  simp only []
  split_ifs with h1 h2 h3
  · exact Res.all_ok h
  · exact Res.all_error h
  · exact Res.all_error h
  · exact Res.all_ok { h with netITerms := h.netITerms.unlink rfl h1 }

theorem itermDisconnectModNet_listsOk (h : B.ListsOk) (t : Nat) :
    (B.itermDisconnectModNet t).ListsOk := by
  unfold itermDisconnectModNet
  simp only []
  split_ifs with h1
  · exact h
  · exact { h with modNetITerms := h.modNetITerms.unlink rfl h1 }

/-- Where disconnecting returned, the iterm is off its flat net, and nothing but the list of the net
and the journal has changed. -/
theorem itermDisconnectDbNet_ok {B' : Block} {t : Nat} (h : B.itermDisconnectDbNet t = .ok B') :
    B'.netITerms.owner = Function.update B.netITerms.owner t 0 ∧
      B' = { B with journal := B'.journal, netITerms := B'.netITerms } := by
  unfold itermDisconnectDbNet at h
  simp only [] at h
  split_ifs at h with h1
  · obtain rfl : B = B' := by simpa using h
    refine ⟨?_, rfl⟩
    rw [← h1, Function.update_eq_self]
  · obtain rfl := Res.ok.inj h
    exact ⟨Lists.owner_unlink _ _ _, rfl⟩

theorem itermDisconnectModNet_owner (B : Block) (t : Nat) :
    (B.itermDisconnectModNet t).modNetITerms.owner = Function.update B.modNetITerms.owner t 0 := by
  unfold itermDisconnectModNet
  simp only []
  split_ifs with h1
  · rw [← h1, Function.update_eq_self]
  · exact Lists.owner_unlink _ _ _

/-- Only the list of the net and the journal change. -/
theorem itermDisconnectModNet_eq (B : Block) (t : Nat) : B.itermDisconnectModNet t =
    { B with
      journal := (B.itermDisconnectModNet t).journal
      modNetITerms := (B.itermDisconnectModNet t).modNetITerms } := by
  unfold itermDisconnectModNet
  simp only []
  split_ifs <;> rfl

theorem itermConnect_listsOk (h : B.ListsOk) {t n : Nat} (ht : t ∈ B.itermTbl.allocated)
    (hn : n ≠ 0 → n ∈ B.netTbl.allocated) : (B.itermConnect t n).All ListsOk := by
  unfold itermConnect
  split_ifs with h0 h1 h2 h3
  · exact Res.all_error h
  · exact Res.all_ok h
  · exact Res.all_error h
  · exact Res.all_error h
  · refine (itermDisconnectDbNet_listsOk h t).bind fun B' hB' h' => ?_
    obtain ⟨howner, heq⟩ := itermDisconnectDbNet_ok hB'
    refine Res.all_ok { h' with netITerms := h'.netITerms.push ?_ ?_ ?_ }
    · rw [heq]; exact ht
    · rw [heq]; exact hn h0
    · rw [howner, Function.update_self]

theorem itermConnectMod_listsOk (h : B.ListsOk) {t m : Nat} (ht : t ∈ B.itermTbl.allocated)
    (hm : m ∈ B.modNetTbl.allocated)
    (hok : B.modNetITerms.owner t = m ∨ (B.itermInst t).flags.dontTouch = false) :
    (B.itermConnectMod t m).All ListsOk := by
  unfold itermConnectMod
  simp only []
  split_ifs with h1 h2
  · exact Res.all_ok h
  · have hinst : (B.itermDisconnectModNet t).itermInst t = B.itermInst t := by
      rw [itermDisconnectModNet_eq]; rfl
    rw [hinst, hok.resolve_left h1] at h2
    exact absurd h2 Bool.false_ne_true
  · have h' := itermDisconnectModNet_listsOk h t
    refine Res.all_ok { h' with modNetITerms := h'.modNetITerms.push ?_ ?_ ?_ }
    · rw [itermDisconnectModNet_eq]; exact ht
    · rw [itermDisconnectModNet_eq]; exact hm
    · rw [itermDisconnectModNet_owner, Function.update_self]

theorem itermDisconnect_listsOk (h : B.ListsOk) (t : Nat) : (B.itermDisconnect t).All ListsOk := by
  unfold itermDisconnect
  simp only []
  split_ifs with h1 h2 h3
  · exact Res.all_ok h
  · exact Res.all_error h
  · exact Res.all_error h
  · exact Res.all_ok { h with
      netITerms := ListsOk.unlinkIf h.netITerms rfl
      modNetITerms := ListsOk.unlinkIf h.modNetITerms rfl }

theorem unlinkIf_owner (s : Lists) (t : Nat) :
    (unlinkIf s t (s.owner t)).owner = Function.update s.owner t 0 := by
  unfold unlinkIf
  split_ifs with h
  · rw [← h, Function.update_eq_self]
  · exact Lists.owner_unlink _ _ _

/-- Where disconnecting returned, the iterm is off both nets. -/
theorem itermDisconnect_ok {B' : Block} {t : Nat} (h : B.itermDisconnect t = .ok B') :
    B'.netITerms.owner = Function.update B.netITerms.owner t 0 ∧
      B'.modNetITerms.owner = Function.update B.modNetITerms.owner t 0 := by
  unfold itermDisconnect at h
  simp only [] at h
  split_ifs at h with h1
  · obtain rfl : B = B' := by simpa using h
    constructor
    · rw [← h1.1, Function.update_eq_self]
    · rw [← h1.2, Function.update_eq_self]
  · obtain rfl := Res.ok.inj h
    exact ⟨unlinkIf_owner _ _, unlinkIf_owner _ _⟩

/-! ### Bterms and module terminals -/

theorem btermDisconnectNet_listsOk (h : B.ListsOk) (b : Nat) : (B.btermDisconnectNet b).ListsOk := by
  unfold btermDisconnectNet
  simp only []
  split_ifs with h1
  · exact h
  · exact { h with netBTerms := h.netBTerms.unlink rfl h1 }

theorem btermDisconnectModNet_listsOk (h : B.ListsOk) (b : Nat) :
    (B.btermDisconnectModNet b).ListsOk := by
  unfold btermDisconnectModNet
  simp only []
  split_ifs with h1
  · exact h
  · exact { h with modNetBTerms := h.modNetBTerms.unlink rfl h1 }

theorem btermDisconnectNet_owner (B : Block) (b : Nat) :
    (B.btermDisconnectNet b).netBTerms.owner = Function.update B.netBTerms.owner b 0 := by
  unfold btermDisconnectNet
  simp only []
  split_ifs with h1
  · rw [← h1, Function.update_eq_self]
  · exact Lists.owner_unlink _ _ _

theorem btermDisconnectModNet_owner (B : Block) (b : Nat) :
    (B.btermDisconnectModNet b).modNetBTerms.owner = Function.update B.modNetBTerms.owner b 0 := by
  unfold btermDisconnectModNet
  simp only []
  split_ifs with h1
  · rw [← h1, Function.update_eq_self]
  · exact Lists.owner_unlink _ _ _

theorem btermDisconnectNet_eq (B : Block) (b : Nat) : B.btermDisconnectNet b =
    { B with
      journal := (B.btermDisconnectNet b).journal
      netBTerms := (B.btermDisconnectNet b).netBTerms } := by
  unfold btermDisconnectNet
  simp only []
  split_ifs <;> rfl

theorem btermDisconnectModNet_eq (B : Block) (b : Nat) : B.btermDisconnectModNet b =
    { B with
      journal := (B.btermDisconnectModNet b).journal
      modNetBTerms := (B.btermDisconnectModNet b).modNetBTerms } := by
  unfold btermDisconnectModNet
  simp only []
  split_ifs <;> rfl

theorem btermDisconnectDbNet_listsOk (h : B.ListsOk) (b : Nat) :
    (B.btermDisconnectDbNet b).All ListsOk := by
  unfold btermDisconnectDbNet
  simp only []
  split_ifs with h1 h2
  · exact Res.all_ok h
  · exact Res.all_error h
  · exact Res.all_ok (btermDisconnectNet_listsOk h b)

/-- Where it returned, `dbBTerm::disconnectDbNet` did what `_dbBTerm::disconnectNet` does. -/
theorem btermDisconnectDbNet_ok {B' : Block} {b : Nat} (h : B.btermDisconnectDbNet b = .ok B') :
    B' = B.btermDisconnectNet b := by
  unfold btermDisconnectDbNet at h
  simp only [] at h
  split_ifs at h with h1
  · obtain rfl : B = B' := by simpa using h
    simp [btermDisconnectNet, h1]
  · exact (Res.ok.inj h).symm

theorem btermConnect_listsOk (h : B.ListsOk) {b n : Nat} (hb : b ∈ B.btermTbl.allocated)
    (hn : n ∈ B.netTbl.allocated) : (B.btermConnect b n).All ListsOk := by
  unfold btermConnect
  split_ifs with h1
  · exact Res.all_error h
  · refine (btermDisconnectDbNet_listsOk h b).bind fun B' hB' h' => ?_
    obtain rfl := btermDisconnectDbNet_ok hB'
    refine Res.all_ok { h' with netBTerms := h'.netBTerms.push ?_ ?_ ?_ }
    · rw [btermDisconnectNet_eq]; exact hb
    · rw [btermDisconnectNet_eq]; exact hn
    · rw [btermDisconnectNet_owner, Function.update_self]

theorem btermConnectMod_listsOk (h : B.ListsOk) {b m : Nat} (hb : b ∈ B.btermTbl.allocated)
    (hm : m ∈ B.modNetTbl.allocated) : (B.btermConnectMod b m).ListsOk := by
  unfold btermConnectMod
  split_ifs with h1
  · exact h
  · have h' := btermDisconnectModNet_listsOk h b
    refine { h' with modNetBTerms := h'.modNetBTerms.push ?_ ?_ ?_ }
    · rw [btermDisconnectModNet_eq]; exact hb
    · rw [btermDisconnectModNet_eq]; exact hm
    · rw [btermDisconnectModNet_owner, Function.update_self]

theorem btermDisconnect_listsOk (h : B.ListsOk) (b : Nat) : (B.btermDisconnect b).All ListsOk := by
  unfold btermDisconnect
  simp only []
  split_ifs with h1 h2
  · exact Res.all_ok h
  · exact Res.all_error h
  · exact Res.all_ok (btermDisconnectModNet_listsOk (btermDisconnectNet_listsOk h b) b)

theorem btermCreate_listsOk (h : B.ListsOk) {n : Nat} (hn : n ∈ B.netTbl.allocated)
    (name : String) : (B.btermCreate n name).All ListsOk := by
  unfold btermCreate
  split_ifs with h1 h2
  · exact Res.all_ok h
  · exact Res.all_error h
  · cases hcreate : B.btermTbl.create with
    | none => exact Res.all_abort
    | some r =>
        obtain ⟨b, T⟩ := r
        obtain ⟨hT, hb0, hb, hall⟩ := h.btermTbl.create hcreate
        have hnet : (B.netBTerms.clearMember b).Over T.allocated B.netTbl.allocated := by
          rw [hall]; exact h.netBTerms.insertMember hb hb0
        have hmod : (B.modNetBTerms.clearMember b).Over T.allocated B.modNetTbl.allocated := by
          rw [hall]; exact h.modNetBTerms.insertMember hb hb0
        refine Res.all_ok { h with
          btermTbl := hT
          netBTerms := hnet.push ?_ hn (Function.update_self _ _ _)
          modNetBTerms := hmod }
        rw [hall]
        exact Finset.mem_insert_self b _

/-- A bterm may be destroyed while it is on a flat net, but not while it is on a hierarchical one. -/
theorem btermDestroy_listsOk (h : B.ListsOk) {b : Nat}
    (hok : B.modNetBTerms.owner b = 0 ∨
      (B.netBTerms.owner b ≠ 0 ∧ (B.net (B.netBTerms.owner b)).dontTouch = true)) :
    (B.btermDestroy b).All ListsOk := by
  unfold btermDestroy
  simp only []
  split_ifs with h1
  · exact Res.all_error h
  · have h' := btermDisconnectNet_listsOk h b
    cases hdestroy : (B.btermDisconnectNet b).record (.deleteBTerm b) |>.btermTbl.destroy b with
    | none => exact Res.all_abort
    | some T =>
        obtain ⟨hT, -, hall⟩ := h'.btermTbl.destroy hdestroy
        have hnet : (B.btermDisconnectNet b).netBTerms.Over T.allocated
            (B.btermDisconnectNet b).netTbl.allocated := by
          rw [hall]
          refine h'.netBTerms.eraseMember ?_
          rw [btermDisconnectNet_owner, Function.update_self]
        have hmod : (B.btermDisconnectNet b).modNetBTerms.Over T.allocated
            (B.btermDisconnectNet b).modNetTbl.allocated := by
          rw [hall]
          refine h'.modNetBTerms.eraseMember ?_
          rw [btermDisconnectNet_eq]
          exact hok.resolve_right h1
        exact Res.all_ok { h' with btermTbl := hT, netBTerms := hnet, modNetBTerms := hmod }

theorem modITermConnect_listsOk (h : B.ListsOk) {t m : Nat} (ht : t ∈ B.modITermTbl.allocated)
    (hm : m ∈ B.modNetTbl.allocated)
    (hok : B.modNetModITerms.owner t = m ∨ B.modNetModITerms.owner t = 0) :
    (B.modITermConnect t m).ListsOk := by
  unfold modITermConnect
  split_ifs with h1
  · exact h
  · exact { h with modNetModITerms := h.modNetModITerms.push ht hm (hok.resolve_left h1) }

theorem modITermDisconnect_listsOk (h : B.ListsOk) (t : Nat) :
    (B.modITermDisconnect t).ListsOk := by
  unfold modITermDisconnect
  simp only []
  split_ifs with h1
  · exact h
  · exact { h with modNetModITerms := h.modNetModITerms.unlinkByPrev rfl h1 }

theorem modBTermConnect_listsOk (h : B.ListsOk) {t m : Nat} (ht : t ∈ B.modBTermTbl.allocated)
    (hm : m ∈ B.modNetTbl.allocated)
    (hok : B.modNetModBTerms.owner t = m ∨ B.modNetModBTerms.owner t = 0) :
    (B.modBTermConnect t m).ListsOk := by
  unfold modBTermConnect
  split_ifs with h1
  · exact h
  · exact { h with modNetModBTerms := h.modNetModBTerms.push ht hm (hok.resolve_left h1) }

theorem modBTermDisconnect_listsOk (h : B.ListsOk) (t : Nat) :
    (B.modBTermDisconnect t).ListsOk := by
  unfold modBTermDisconnect
  simp only []
  split_ifs with h1
  · exact h
  · exact { h with
      modNetModBTerms := (h.modNetModBTerms.unlinkByPrev rfl h1).clearMember
        (Function.update_self _ _ _) }

/-! ### Nets and instances -/

theorem netCreate_listsOk (h : B.ListsOk) (name : String) (skip : Bool) :
    (Res.ofCreate (B.netCreate name skip)).All ListsOk := by
  unfold netCreate
  split_ifs with h1
  · exact Res.all_ok h
  · cases hcreate : B.netTbl.create with
    | none => exact Res.all_abort
    | some r =>
        obtain ⟨n, T⟩ := r
        obtain ⟨hT, hn0, hn, hall⟩ := h.netTbl.create hcreate
        refine Res.all_ok { h with netTbl := hT, netITerms := ?_, netBTerms := ?_ }
        · change (B.netITerms.clearOwner n).Over B.itermTbl.allocated T.allocated
          rw [hall]
          exact h.netITerms.insertOwner hn hn0
        · change (B.netBTerms.clearOwner n).Over B.btermTbl.allocated T.allocated
          rw [hall]
          exact h.netBTerms.insertOwner hn hn0

theorem modNetCreate_listsOk (h : B.ListsOk) (parent : Nat) (name : String) :
    (Res.ofCreate (B.modNetCreate parent name)).All ListsOk := by
  unfold modNetCreate
  cases hcreate : B.modNetTbl.create with
  | none => exact Res.all_abort
  | some r =>
      obtain ⟨m, T⟩ := r
      obtain ⟨hT, hm0, hm, hall⟩ := h.modNetTbl.create hcreate
      have hlists : ∀ {s : Lists} {members : Finset Nat},
          s.Over members B.modNetTbl.allocated → (s.clearOwner m).Over members T.allocated := by
        intro s members hs
        rw [hall]
        exact hs.insertOwner hm hm0
      exact Res.all_ok { h with
        modNetTbl := hT
        modNetITerms := hlists h.modNetITerms
        modNetBTerms := hlists h.modNetBTerms
        modNetModITerms := hlists h.modNetModITerms
        modNetModBTerms := hlists h.modNetModBTerms }

theorem createITerms_listsOk (h : B.ListsOk) (i k n : Nat) :
    ∀ ts B', B.createITerms i k n = some (ts, B') → B'.ListsOk := by
  induction n generalizing B k with
  | zero =>
      intro ts B' hcreate
      obtain ⟨-, rfl⟩ : [] = ts ∧ B = B' := by simpa [createITerms] using hcreate
      exact h
  | succ n ih =>
      intro ts B' hcreate
      obtain ⟨⟨t, T⟩, ht, hrest⟩ := Option.bind_eq_some_iff.mp hcreate
      obtain ⟨⟨us, B₂⟩, hus, heq⟩ := Option.bind_eq_some_iff.mp hrest
      obtain ⟨-, rfl⟩ : t :: us = ts ∧ B₂ = B' := by simpa using heq
      obtain ⟨hT, ht0, htn, hall⟩ := h.itermTbl.create ht
      refine ih ?_ _ _ _ hus
      refine { h with itermTbl := hT, netITerms := ?_, modNetITerms := ?_ }
      · change (B.netITerms.clearMember t).Over T.allocated B.netTbl.allocated
        rw [hall]
        exact h.netITerms.insertMember htn ht0
      · change (B.modNetITerms.clearMember t).Over T.allocated B.modNetTbl.allocated
        rw [hall]
        exact h.modNetITerms.insertMember htn ht0

theorem instCreate_cases {m : MasterId} {name : String} {region : Nat} {physicalOnly : Bool}
    {parentModule i : Nat} {B' : Block}
    (h : B.instCreate m name region physicalOnly parentModule = some (i, B')) :
    (B.hasInst name = true ∧ i = 0 ∧ B' = B) ∨
    (B.hasInst name = false ∧ ∃ T ts B₂, B.instTbl.create = some (i, T) ∧
      (({ B with instTbl := T } : Block).record (.createInst m.lib m.id name i)).createITerms i 0
        (B.master m).mterms.length = some (ts, B₂) ∧
      B' = B₂.setInst i (B₂.newInst m name region physicalOnly parentModule ts)) := by
  unfold instCreate at h
  split_ifs at h with hname
  · obtain ⟨rfl, rfl⟩ : 0 = i ∧ B = B' := by simpa using h
    exact Or.inl ⟨hname, rfl, rfl⟩
  · obtain ⟨⟨j, T⟩, hT, hrest⟩ := Option.bind_eq_some_iff.mp h
    obtain ⟨⟨ts, B₂⟩, hiterms, heq⟩ := Option.map_eq_some_iff.mp hrest
    obtain ⟨rfl, rfl⟩ := Prod.mk.inj heq
    exact Or.inr ⟨by simpa using hname, T, ts, B₂, hT, hiterms, rfl⟩

theorem instCreate_listsOk (h : B.ListsOk) (m : MasterId) (name : String) (region : Nat)
    (physicalOnly : Bool) (parentModule : Nat) :
    (Res.ofCreate (B.instCreate m name region physicalOnly parentModule)).All ListsOk := by
  refine Res.all_ofCreate fun i B' hcreate => ?_
  rcases instCreate_cases hcreate with ⟨-, -, rfl⟩ | ⟨-, T, ts, B₂, hT, hiterms, rfl⟩
  · exact h
  · have h₁ : (({ B with instTbl := T } : Block).record (.createInst m.lib m.id name i)).ListsOk :=
      { h with instTbl := (h.instTbl.create hT).1 }
    exact (createITerms_listsOk h₁ i 0 _ ts B₂ hiterms).setInst i _

theorem destroyITerms_listsOk (h : B.ListsOk) (i : Nat) (ts : List Nat) :
    (B.destroyITerms i ts).All ListsOk := by
  induction ts generalizing B with
  | nil => exact Res.all_ok h
  | cons t ts ih =>
      refine (itermDisconnect_listsOk h t).bind fun B' hB' h' => ?_
      obtain ⟨hnet, hmod⟩ := itermDisconnect_ok hB'
      cases hdestroy : B'.itermTbl.destroy t with
      | none => exact Res.all_abort
      | some T =>
          obtain ⟨hT, -, hall⟩ := h'.itermTbl.destroy hdestroy
          refine ih ?_
          refine { h' with itermTbl := hT, netITerms := ?_, modNetITerms := ?_ }
          · change B'.netITerms.Over T.allocated B'.netTbl.allocated
            rw [hall]
            exact h'.netITerms.eraseMember (by rw [hnet, Function.update_self])
          · change B'.modNetITerms.Over T.allocated B'.modNetTbl.allocated
            rw [hall]
            exact h'.modNetITerms.eraseMember (by rw [hmod, Function.update_self])

theorem instDestroy_listsOk (h : B.ListsOk) (i : Nat) : (B.instDestroy i).All ListsOk := by
  unfold instDestroy
  split_ifs with h1
  · exact Res.all_error h
  · refine (destroyITerms_listsOk h i _).bind fun B' _ h' => ?_
    simp only []
    split
    · exact Res.all_abort
    · rename_i T hdestroy
      exact Res.all_ok { h' with instTbl := (h'.instTbl.destroy hdestroy).1 }

/-! ### Placement -/

theorem setInstBBox_listsOk (h : B.ListsOk) (i : Nat) : (B.setInstBBox i).ListsOk := h.setInst i _

theorem instSetOrigin_listsOk (h : B.ListsOk) (i : Nat) (x y : Int) :
    (B.instSetOrigin i x y).All ListsOk := by
  unfold instSetOrigin
  simp only []
  split_ifs
  · exact Res.all_ok h
  · exact Res.all_error h
  · exact Res.all_ok ((setInstBBox_listsOk (h.setInst i _) i).record _)

theorem instSetOrient_listsOk (h : B.ListsOk) (i : Nat) (orient : Orient) :
    (B.instSetOrient i orient).All ListsOk := by
  unfold instSetOrient
  simp only []
  split_ifs
  · exact Res.all_ok h
  · exact Res.all_error h
  · exact Res.all_ok ((setInstBBox_listsOk (h.setInst i _) i).record _)

theorem instSetPlacementStatus_listsOk (h : B.ListsOk) (i : Nat) (status : PlacementStatus) :
    (B.instSetPlacementStatus i status).ListsOk := by
  unfold instSetPlacementStatus
  simp only []
  split_ifs
  · exact h
  · exact (h.setInst i _).record _

theorem ListsOk.rebind (h : B.ListsOk) (ts : List Nat) (idx : Nat → Nat) :
    (B.rebind ts idx).ListsOk := { h with }

theorem instSwapMaster_listsOk (h : B.ListsOk) (i : Nat) (m : MasterId) :
    (B.instSwapMaster i m).All ListsOk := by
  unfold instSwapMaster
  simp only []
  split_ifs
  · exact Res.all_error h
  · exact Res.all_ok h
  · split
    · exact Res.all_ok (h.record _)
    · exact Res.all_ok (((setInstBBox_listsOk ((h.record _).setInst i _) i).rebind _ _).setInst i _)

/-! ### Runs -/

/-- The calls that keep the lists consistent: the others leave a terminal behind on a list, or put
one on a net without its list. -/
def KeepsLists (B : Block) : BlockOp → Prop
  | .itermConnectMod t m => B.modNetITerms.owner t = m ∨ (B.itermInst t).flags.dontTouch = false
  | .itermConnectBoth t n m =>
      (B.modNetITerms.owner t = m ∨ (B.itermInst t).flags.dontTouch = false) ∨
        (n = 0 ∨ B.netITerms.owner t ≠ n)
  | .btermDestroy b =>
      B.modNetBTerms.owner b = 0 ∨
        (B.netBTerms.owner b ≠ 0 ∧ (B.net (B.netBTerms.owner b)).dontTouch = true)
  | .modITermConnect t m => B.modNetModITerms.owner t = m ∨ B.modNetModITerms.owner t = 0
  | .modBTermConnect t m => B.modNetModBTerms.owner t = m ∨ B.modNetModBTerms.owner t = 0
  | _ => True

instance (B : Block) (op : BlockOp) : Decidable (B.KeepsLists op) := by
  apply BlockOp.casesOn (motive := fun op => Decidable (B.KeepsLists op)) op <;> intros <;>
    dsimp only [KeepsLists] <;> infer_instance

/-- Connecting to a flat net changes nothing but its list and the journal. -/
theorem itermConnect_ok {B' : Block} {t n : Nat} (h : B.itermConnect t n = .ok B') :
    B' = { B with journal := B'.journal, netITerms := B'.netITerms } := by
  unfold itermConnect at h
  split_ifs at h
  · obtain rfl := Res.ok.inj h
    rfl
  · cases hB₁ : B.itermDisconnectDbNet t with
    | ok B₁ =>
        obtain ⟨-, heq⟩ := itermDisconnectDbNet_ok hB₁
        rw [hB₁, Res.bind_ok] at h
        obtain rfl := Res.ok.inj h
        rw [heq]
        rfl
    | error code B₁ => rw [hB₁] at h; exact absurd h (by simp)
    | abort => rw [hB₁] at h; exact absurd h (by simp)

/-- An iterm of a `dont_touch` instance is not connected to another net. -/
theorem itermConnect_dontTouch {B' : Block} {t n : Nat} (h : B.itermConnect t n = .ok B')
    (hnew : n = 0 ∨ B.netITerms.owner t ≠ n) : (B.itermInst t).flags.dontTouch = false := by
  by_contra hdont
  rw [Bool.not_eq_false] at hdont
  unfold itermConnect at h
  rcases hnew with h0 | hnew
  · simp [h0] at h
  · by_cases h0 : n = 0
    · simp [h0] at h
    · simp [h0, hnew, hdont] at h

theorem itermConnectBoth_listsOk (h : B.ListsOk) {t n m : Nat} (ht : t ∈ B.itermTbl.allocated)
    (hn : n ≠ 0 → n ∈ B.netTbl.allocated) (hm : m ∈ B.modNetTbl.allocated)
    (hok : (B.modNetITerms.owner t = m ∨ (B.itermInst t).flags.dontTouch = false) ∨
      (n = 0 ∨ B.netITerms.owner t ≠ n)) :
    (B.itermConnectBoth t n m).All ListsOk := by
  refine (itermConnect_listsOk h ht hn).bind fun B' hB' h' => ?_
  have heq := itermConnect_ok hB'
  have hok' : B.modNetITerms.owner t = m ∨ (B.itermInst t).flags.dontTouch = false := by
    rcases hok with hok | hnew
    · exact hok
    · exact Or.inr (itermConnect_dontTouch hB' hnew)
  rw [heq] at h' ⊢
  exact itermConnectMod_listsOk h' ht hm hok'

theorem perform_listsOk (h : B.ListsOk) {op : BlockOp} (hvalid : B.validOp op = true)
    (hok : B.KeepsLists op) : (B.perform op).All ListsOk := by
  have hnull : ∀ {n : Nat}, (n == 0 || B.netTbl.validId n) = true →
      n ≠ 0 → n ∈ B.netTbl.allocated := by
    intro n hn h0
    rw [Bool.or_eq_true, beq_iff_eq] at hn
    exact h.netTbl.validId_iff.mp (hn.resolve_left h0)
  cases op <;> simp only [validOp, Bool.and_eq_true] at hvalid <;> simp only [perform]
  case itermConnect t n =>
    exact itermConnect_listsOk h (h.itermTbl.validId_iff.mp hvalid.1) (hnull hvalid.2)
  case itermConnectMod t m =>
    exact itermConnectMod_listsOk h (h.itermTbl.validId_iff.mp hvalid.1)
      (h.modNetTbl.validId_iff.mp hvalid.2) hok
  case itermConnectBoth t n m =>
    exact itermConnectBoth_listsOk h (h.itermTbl.validId_iff.mp hvalid.1.1) (hnull hvalid.1.2)
      (h.modNetTbl.validId_iff.mp hvalid.2) hok
  case itermDisconnect t => exact itermDisconnect_listsOk h t
  case itermDisconnectDbNet t => exact itermDisconnectDbNet_listsOk h t
  case itermDisconnectModNet t => exact Res.all_ok (itermDisconnectModNet_listsOk h t)
  case btermConnect b n =>
    exact btermConnect_listsOk h (h.btermTbl.validId_iff.mp hvalid.1)
      (h.netTbl.validId_iff.mp hvalid.2)
  case btermConnectMod b m =>
    exact Res.all_ok (btermConnectMod_listsOk h (h.btermTbl.validId_iff.mp hvalid.1)
      (h.modNetTbl.validId_iff.mp hvalid.2))
  case btermDisconnect b => exact btermDisconnect_listsOk h b
  case btermDisconnectDbNet b => exact btermDisconnectDbNet_listsOk h b
  case btermDisconnectDbModNet b => exact Res.all_ok (btermDisconnectModNet_listsOk h b)
  case modITermConnect t m =>
    exact Res.all_ok (modITermConnect_listsOk h (h.modITermTbl.validId_iff.mp hvalid.1)
      (h.modNetTbl.validId_iff.mp hvalid.2) hok)
  case modITermDisconnect t => exact Res.all_ok (modITermDisconnect_listsOk h t)
  case modBTermConnect t m =>
    exact Res.all_ok (modBTermConnect_listsOk h (h.modBTermTbl.validId_iff.mp hvalid.1)
      (h.modNetTbl.validId_iff.mp hvalid.2) hok)
  case modBTermDisconnect t => exact Res.all_ok (modBTermDisconnect_listsOk h t)
  case netCreate name skip => exact netCreate_listsOk h name skip
  case modNetCreate parent name => exact modNetCreate_listsOk h parent name
  case btermCreate n name => exact btermCreate_listsOk h (h.netTbl.validId_iff.mp hvalid) name
  case btermDestroy b => exact btermDestroy_listsOk h hok
  case instCreate m name region physicalOnly parentModule => exact instCreate_listsOk h m name _ _ _
  case instDestroy i => exact instDestroy_listsOk h i
  case instSetOrigin i x y => exact instSetOrigin_listsOk h i x y
  case instSetLocation i x y => exact instSetOrigin_listsOk h i _ _
  case instSetOrient i orient => exact instSetOrient_listsOk h i orient
  case instSetPlacementStatus i status => exact Res.all_ok (instSetPlacementStatus_listsOk h i status)
  case instSwapMaster i m => exact instSwapMaster_listsOk h i m
  case instSetDoNotTouch i v => exact Res.all_ok (h.setInst i _)
  case netSetDoNotTouch n v => exact Res.all_ok { h with }

theorem step_listsOk (B : Block) (op : BlockOp) (B' : Block) (h : B.ListsOk) (hok : B.KeepsLists op)
    (hstep : B.step op = some B') : B'.ListsOk := by
  unfold step at hstep
  split_ifs at hstep with hvalid
  exact perform_listsOk h hvalid hok B' hstep

theorem empty_listsOk (shifts : PageShifts) (master : MasterId → Master) (topModule : Nat) :
    (empty shifts master topModule).ListsOk := by
  have hok : ∀ k, (DbTable.init k).Ok := fun k => ⟨[], DbTable.inv_init k⟩
  exact ⟨hok _, hok _, hok _, hok _, hok _, hok _, hok _,
    Lists.over_empty (hok _).zero_notMem (hok _).zero_notMem,
    Lists.over_empty (hok _).zero_notMem (hok _).zero_notMem,
    Lists.over_empty (hok _).zero_notMem (hok _).zero_notMem,
    Lists.over_empty (hok _).zero_notMem (hok _).zero_notMem,
    Lists.over_empty (hok _).zero_notMem (hok _).zero_notMem,
    Lists.over_empty (hok _).zero_notMem (hok _).zero_notMem⟩

theorem run_listsOk {B B' : Block} {ops : List BlockOp} (h : B.ListsOk)
    (hok : Run.Along step KeepsLists B ops) (hrun : Run.run step B ops = some B') : B'.ListsOk :=
  Run.run_invariant step_listsOk h hok hrun

end Block

end OpenRoad.Db
