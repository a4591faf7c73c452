import OpenRoad.DbUndo

/-!
Instances and their iterms agree: each live iterm is listed by its live instance, once and in the
order of the terminals of its master, and no two instances have the same name. Every call that
returns keeps this, where it keeps the lists of terminals.
-/

namespace OpenRoad.Db
open LinkedList

namespace Block

variable {B B' B₁ : Block}

/-! ### Calls that leave the instances alone -/

/-- The instances and their iterms are the same. -/
structure SameInsts (B B' : Block) : Prop where
  master : B'.master = B.master
  instTbl : B'.instTbl = B.instTbl
  itermTbl : B'.itermTbl = B.itermTbl
  inst : B'.inst = B.inst
  iterm : B'.iterm = B.iterm

theorem SameInsts.refl (B : Block) : SameInsts B B := ⟨rfl, rfl, rfl, rfl, rfl⟩

theorem SameInsts.trans {B'' : Block} (h : SameInsts B B') (h' : SameInsts B' B'') :
    SameInsts B B'' :=
  ⟨h'.master.trans h.master, h'.instTbl.trans h.instTbl, h'.itermTbl.trans h.itermTbl,
    h'.inst.trans h.inst, h'.iterm.trans h.iterm⟩

theorem SameInsts.ok (h : SameInsts B B') (hB : B.Ok) (hlists : B'.ListsOk) : B'.Ok := by
  obtain ⟨h1, h2, h3, h4, h5⟩ := h
  refine ⟨hlists, ?_, ?_, ?_, ?_⟩
  · rw [h2, h3, h4, h5]; exact hB.itermInst
  · rw [h2, h3, h4, h5]; exact hB.instITerms
  · rw [h1, h2, h4, h5]; exact hB.order
  · rw [h2, h4]; exact hB.names

theorem itermDisconnectDbNet_sameInsts (t : Nat) :
    (B.itermDisconnectDbNet t).All (SameInsts B) := by
  unfold itermDisconnectDbNet
  simp only []
  split_ifs
  · exact Res.all_ok (SameInsts.refl B)
  · exact Res.all_error (SameInsts.refl B)
  · exact Res.all_error (SameInsts.refl B)
  · exact Res.all_ok ⟨rfl, rfl, rfl, rfl, rfl⟩

theorem itermDisconnectModNet_sameInsts (B : Block) (t : Nat) :
    SameInsts B (B.itermDisconnectModNet t) := by
  rw [itermDisconnectModNet_eq]
  exact ⟨rfl, rfl, rfl, rfl, rfl⟩

theorem itermConnect_sameInsts (t n : Nat) : (B.itermConnect t n).All (SameInsts B) := by
  unfold itermConnect
  split_ifs
  · exact Res.all_error (SameInsts.refl B)
  · exact Res.all_ok (SameInsts.refl B)
  · exact Res.all_error (SameInsts.refl B)
  · exact Res.all_error (SameInsts.refl B)
  · refine (itermDisconnectDbNet_sameInsts t).bind fun B₁ _ h => Res.all_ok (h.trans ?_)
    exact ⟨rfl, rfl, rfl, rfl, rfl⟩

theorem itermConnectMod_sameInsts (t m : Nat) : (B.itermConnectMod t m).All (SameInsts B) := by
  unfold itermConnectMod
  simp only []
  split_ifs
  · exact Res.all_ok (SameInsts.refl B)
  · exact Res.all_error ((itermDisconnectModNet_sameInsts B t).trans ⟨rfl, rfl, rfl, rfl, rfl⟩)
  · exact Res.all_ok ((itermDisconnectModNet_sameInsts B t).trans ⟨rfl, rfl, rfl, rfl, rfl⟩)

theorem itermDisconnect_sameInsts (t : Nat) : (B.itermDisconnect t).All (SameInsts B) := by
  unfold itermDisconnect
  simp only []
  split_ifs
  · exact Res.all_ok (SameInsts.refl B)
  · exact Res.all_error (SameInsts.refl B)
  · exact Res.all_error (SameInsts.refl B)
  · exact Res.all_ok ⟨rfl, rfl, rfl, rfl, rfl⟩

theorem btermDisconnectNet_sameInsts (B : Block) (b : Nat) :
    SameInsts B (B.btermDisconnectNet b) := by
  rw [btermDisconnectNet_eq]
  exact ⟨rfl, rfl, rfl, rfl, rfl⟩

theorem btermDisconnectModNet_sameInsts (B : Block) (b : Nat) :
    SameInsts B (B.btermDisconnectModNet b) := by
  rw [btermDisconnectModNet_eq]
  exact ⟨rfl, rfl, rfl, rfl, rfl⟩

theorem btermDisconnectDbNet_sameInsts (b : Nat) :
    (B.btermDisconnectDbNet b).All (SameInsts B) := by
  unfold btermDisconnectDbNet
  simp only []
  split_ifs
  · exact Res.all_ok (SameInsts.refl B)
  · exact Res.all_error (SameInsts.refl B)
  · exact Res.all_ok (btermDisconnectNet_sameInsts B b)

theorem btermConnect_sameInsts (b n : Nat) : (B.btermConnect b n).All (SameInsts B) := by
  unfold btermConnect
  split_ifs
  · exact Res.all_error (SameInsts.refl B)
  · refine (btermDisconnectDbNet_sameInsts b).bind fun B₁ _ h => Res.all_ok (h.trans ?_)
    exact ⟨rfl, rfl, rfl, rfl, rfl⟩

theorem btermConnectMod_sameInsts (B : Block) (b m : Nat) : SameInsts B (B.btermConnectMod b m) := by
  unfold btermConnectMod
  split_ifs
  · exact SameInsts.refl B
  · exact (btermDisconnectModNet_sameInsts B b).trans ⟨rfl, rfl, rfl, rfl, rfl⟩

theorem btermDisconnect_sameInsts (b : Nat) : (B.btermDisconnect b).All (SameInsts B) := by
  unfold btermDisconnect
  simp only []
  split_ifs
  · exact Res.all_ok (SameInsts.refl B)
  · exact Res.all_error (SameInsts.refl B)
  · exact Res.all_ok ((btermDisconnectNet_sameInsts B b).trans (btermDisconnectModNet_sameInsts _ b))

theorem btermCreate_sameInsts (n : Nat) (name : String) :
    (B.btermCreate n name).All (SameInsts B) := by
  unfold btermCreate
  split_ifs
  · exact Res.all_ok (SameInsts.refl B)
  · exact Res.all_error (SameInsts.refl B)
  · split
    · exact Res.all_abort
    · exact Res.all_ok ⟨rfl, rfl, rfl, rfl, rfl⟩

theorem btermDestroy_sameInsts (b : Nat) : (B.btermDestroy b).All (SameInsts B) := by
  unfold btermDestroy
  simp only []
  split_ifs
  · exact Res.all_error (SameInsts.refl B)
  · split
    · exact Res.all_abort
    · exact Res.all_ok ((btermDisconnectNet_sameInsts B b).trans ⟨rfl, rfl, rfl, rfl, rfl⟩)

theorem modITermConnect_sameInsts (B : Block) (t m : Nat) : SameInsts B (B.modITermConnect t m) := by
  unfold modITermConnect
  split_ifs <;> exact ⟨rfl, rfl, rfl, rfl, rfl⟩

theorem modITermDisconnect_sameInsts (B : Block) (t : Nat) :
    SameInsts B (B.modITermDisconnect t) := by
  unfold modITermDisconnect
  simp only []
  split_ifs <;> exact ⟨rfl, rfl, rfl, rfl, rfl⟩

theorem modBTermConnect_sameInsts (B : Block) (t m : Nat) : SameInsts B (B.modBTermConnect t m) := by
  unfold modBTermConnect
  split_ifs <;> exact ⟨rfl, rfl, rfl, rfl, rfl⟩

theorem modBTermDisconnect_sameInsts (B : Block) (t : Nat) :
    SameInsts B (B.modBTermDisconnect t) := by
  unfold modBTermDisconnect
  simp only []
  split_ifs <;> exact ⟨rfl, rfl, rfl, rfl, rfl⟩

theorem netCreate_sameInsts (name : String) (skip : Bool) :
    (Res.ofCreate (B.netCreate name skip)).All (SameInsts B) := by
  refine Res.all_ofCreate fun n B' h => ?_
  unfold netCreate at h
  split_ifs at h
  · obtain ⟨-, rfl⟩ : 0 = n ∧ B = B' := by simpa using h
    exact SameInsts.refl B
  · obtain ⟨⟨n₁, T⟩, -, heq⟩ := Option.bind_eq_some_iff.mp h
    obtain ⟨-, rfl⟩ := Prod.mk.inj (Option.some.inj heq)
    exact ⟨rfl, rfl, rfl, rfl, rfl⟩

theorem modNetCreate_sameInsts (parent : Nat) (name : String) :
    (Res.ofCreate (B.modNetCreate parent name)).All (SameInsts B) := by
  refine Res.all_ofCreate fun m B' h => ?_
  unfold modNetCreate at h
  obtain ⟨⟨m₁, T⟩, -, heq⟩ := Option.bind_eq_some_iff.mp h
  obtain ⟨-, rfl⟩ := Prod.mk.inj (Option.some.inj heq)
  exact ⟨rfl, rfl, rfl, rfl, rfl⟩

/-- The calls that create, destroy or change an instance. -/
def isInstOp : BlockOp → Bool
  | .instCreate _ _ _ _ _ | .instDestroy _ | .instSetOrigin _ _ _ | .instSetLocation _ _ _
  | .instSetOrient _ _ | .instSetPlacementStatus _ _ | .instSwapMaster _ _
  | .instSetDoNotTouch _ _ => true
  | _ => false

theorem perform_sameInsts {op : BlockOp} (hop : isInstOp op = false) :
    (B.perform op).All (SameInsts B) := by
  cases op <;> simp only [perform]
  case itermConnect t n => exact itermConnect_sameInsts t n
  case itermConnectMod t m => exact itermConnectMod_sameInsts t m
  case itermConnectBoth t n m =>
    refine (itermConnect_sameInsts t n).bind fun B₁ _ h => ?_
    exact fun B' hB' => h.trans (itermConnectMod_sameInsts t m B' hB')
  case itermDisconnect t => exact itermDisconnect_sameInsts t
  case itermDisconnectDbNet t => exact itermDisconnectDbNet_sameInsts t
  case itermDisconnectModNet t => exact Res.all_ok (itermDisconnectModNet_sameInsts B t)
  case btermConnect b n => exact btermConnect_sameInsts b n
  case btermConnectMod b m => exact Res.all_ok (btermConnectMod_sameInsts B b m)
  case btermDisconnect b => exact btermDisconnect_sameInsts b
  case btermDisconnectDbNet b => exact btermDisconnectDbNet_sameInsts b
  case btermDisconnectDbModNet b => exact Res.all_ok (btermDisconnectModNet_sameInsts B b)
  case modITermConnect t m => exact Res.all_ok (modITermConnect_sameInsts B t m)
  case modITermDisconnect t => exact Res.all_ok (modITermDisconnect_sameInsts B t)
  case modBTermConnect t m => exact Res.all_ok (modBTermConnect_sameInsts B t m)
  case modBTermDisconnect t => exact Res.all_ok (modBTermDisconnect_sameInsts B t)
  case netCreate name skip => exact netCreate_sameInsts name skip
  case modNetCreate parent name => exact modNetCreate_sameInsts parent name
  case btermCreate n name => exact btermCreate_sameInsts n name
  case btermDestroy b => exact btermDestroy_sameInsts b
  case netSetDoNotTouch n v => exact Res.all_ok ⟨rfl, rfl, rfl, rfl, rfl⟩
  all_goals exact absurd hop (by simp [isInstOp])

/-! ### Creating iterms -/

/-- The first of the iterms of an instance. -/
def createITerm (B : Block) (T : DbTable) (t i k : Nat) : Block :=
  { B with
    itermTbl := T
    iterm := Function.update B.iterm t ⟨i, k⟩
    netITerms := B.netITerms.clearMember t
    modNetITerms := B.modNetITerms.clearMember t }

theorem createITerms_succ {i k n : Nat} {ts : List Nat}
    (h : B.createITerms i k (n + 1) = some (ts, B')) :
    ∃ t rest T, B.itermTbl.create = some (t, T) ∧
      (B.createITerm T t i k).createITerms i (k + 1) n = some (rest, B') ∧ ts = t :: rest := by
  obtain ⟨⟨t, T⟩, ht, hrest⟩ := Option.bind_eq_some_iff.mp h
  obtain ⟨⟨rest, B₁⟩, hrest', heq⟩ := Option.bind_eq_some_iff.mp hrest
  obtain ⟨rfl, rfl⟩ : t :: rest = ts ∧ B₁ = B' := by simpa using heq
  exact ⟨t, rest, T, ht, hrest', rfl⟩

theorem createITerm_listsOk (h : B.ListsOk) {T : DbTable} {t : Nat} (i k : Nat)
    (hcreate : B.itermTbl.create = some (t, T)) : (B.createITerm T t i k).ListsOk := by
  obtain ⟨hT, ht0, ht, hall⟩ := h.itermTbl.create hcreate
  refine { h with itermTbl := hT, netITerms := ?_, modNetITerms := ?_ }
  · change (B.netITerms.clearMember t).Over T.allocated B.netTbl.allocated
    rw [hall]
    exact h.netITerms.insertMember ht ht0
  · change (B.modNetITerms.clearMember t).Over T.allocated B.modNetTbl.allocated
    rw [hall]
    exact h.modNetITerms.insertMember ht ht0

/-- A terminal that is not live is on no net. -/
theorem owner_clearMember_of_notMem {s : Lists} {members owners : Finset Nat}
    (h : s.Over members owners) {t : Nat} (ht : t ∉ members) :
    (s.clearMember t).owner = s.owner := by
  have h0 : s.owner t = 0 := by_contra fun h0 => ht (h.member t h0)
  rw [Lists.owner_clearMember, ← h0, Function.update_eq_self]

/-- What `createITerms` did: the iterms `ts` are new, on no net, and bound to the terminals from `k`
on. -/
structure ITermsCreated (B B' : Block) (i k : Nat) (ts : List Nat) : Prop where
  eq : B' = { B with
    itermTbl := B'.itermTbl
    iterm := B'.iterm
    netITerms := B'.netITerms
    modNetITerms := B'.modNetITerms }
  tbl : B.itermTbl.creates ts.length = some (ts, B'.itermTbl)
  nodup : ts.Nodup
  fresh : ∀ t ∈ ts, t ∉ B.itermTbl.allocated
  allocated : ∀ t, t ∈ B'.itermTbl.allocated ↔ t ∈ ts ∨ t ∈ B.itermTbl.allocated
  old : ∀ t, t ∉ ts → B'.iterm t = B.iterm t
  new : ts.map B'.iterm = (List.range' k ts.length).map fun idx => ⟨i, idx⟩
  netITerms : B'.netITerms.owner = B.netITerms.owner
  modNetITerms : B'.modNetITerms.owner = B.modNetITerms.owner

theorem ITermsCreated.cons (h : B.ListsOk) {T : DbTable} {t i k : Nat} {ts : List Nat}
    (hcreate : B.itermTbl.create = some (t, T))
    (hts : ITermsCreated (B.createITerm T t i k) B' i (k + 1) ts) :
    ITermsCreated B B' i k (t :: ts) := by
  obtain ⟨-, -, ht, hall⟩ := h.itermTbl.create hcreate
  have htT : t ∈ T.allocated := by rw [hall]; exact Finset.mem_insert_self t _
  have hnew : t ∉ ts := fun hmem => hts.fresh t hmem htT
  have hself : B'.iterm t = ⟨i, k⟩ := (hts.old t hnew).trans (Function.update_self _ _ _)
  refine ⟨hts.eq.trans rfl, ?_, List.nodup_cons.mpr ⟨hnew, hts.nodup⟩, ?_, ?_, ?_, ?_, ?_, ?_⟩
  · rw [List.length_cons, DbTable.creates, hcreate, Option.bind_some,
      show T.creates ts.length = _ from hts.tbl]
    rfl
  · intro t' ht'
    rcases List.mem_cons.mp ht' with rfl | ht'
    · exact ht
    · exact fun hmem => hts.fresh t' ht' (by
        change t' ∈ T.allocated; rw [hall]; exact Finset.mem_insert_of_mem hmem)
  · intro t'
    rw [hts.allocated, show (B.createITerm T t i k).itermTbl.allocated = _ from hall,
      Finset.mem_insert, List.mem_cons]
    tauto
  · intro t' ht'
    rw [List.mem_cons, not_or] at ht'
    exact (hts.old t' ht'.2).trans (Function.update_of_ne ht'.1 _ _)
  · rw [List.map_cons, hts.new, hself]
    rfl
  · exact hts.netITerms.trans (owner_clearMember_of_notMem h.netITerms ht)
  · exact hts.modNetITerms.trans (owner_clearMember_of_notMem h.modNetITerms ht)

theorem iTermsCreated (h : B.ListsOk) {i k n : Nat} {ts : List Nat}
    (hcreate : B.createITerms i k n = some (ts, B')) :
    ITermsCreated B B' i k ts ∧ ts.length = n ∧ B'.ListsOk := by
  induction n generalizing B k ts with
  | zero =>
      obtain ⟨rfl, rfl⟩ : [] = ts ∧ B = B' := by simpa [createITerms] using hcreate
      exact ⟨⟨rfl, rfl, List.nodup_nil, by simp, by simp, fun _ _ => rfl, rfl, rfl, rfl⟩, rfl, h⟩
  | succ n ih =>
      obtain ⟨t, rest, T, ht, hrest, rfl⟩ := createITerms_succ hcreate
      obtain ⟨hrest', hlen, hlists⟩ := ih (createITerm_listsOk h i k ht) hrest
      exact ⟨hrest'.cons h ht, by rw [List.length_cons, hlen], hlists⟩

/-- The iterms are created where the table has room for them. -/
theorem createITerms_of_creates {i k n : Nat} {ts : List Nat} {T : DbTable}
    (hcreates : B.itermTbl.creates n = some (ts, T)) :
    ∃ B', B.createITerms i k n = some (ts, B') := by
  induction n generalizing B k ts with
  | zero =>
      obtain ⟨rfl, -⟩ : [] = ts ∧ B.itermTbl = T := by simpa [DbTable.creates] using hcreates
      exact ⟨B, rfl⟩
  | succ n ih =>
      obtain ⟨t, rest, T₁, hcreate, hrest, rfl⟩ := DbTable.creates_succ hcreates
      obtain ⟨B', hB'⟩ := ih (B := B.createITerm T₁ t i k) (k := k + 1) hrest
      refine ⟨B', ?_⟩
      rw [createITerms, hcreate]
      change ((B.createITerm T₁ t i k).createITerms i (k + 1) n).bind _ = _
      rw [hB']
      rfl

theorem ITermsCreated.inst {i k : Nat} {ts : List Nat} (h : ITermsCreated B B' i k ts) {t : Nat}
    (ht : t ∈ ts) : (B'.iterm t).inst = i := by
  have hmem : B'.iterm t ∈ ts.map B'.iterm := List.mem_map_of_mem ht
  rw [h.new] at hmem
  obtain ⟨idx, -, heq⟩ := List.mem_map.mp hmem
  rw [← heq]

theorem ITermsCreated.order {i : Nat} {ts : List Nat} (h : ITermsCreated B B' i 0 ts) :
    ts.map (fun t => (B'.iterm t).mtermIdx) = List.range ts.length := by
  have hmap := congrArg (List.map ITerm.mtermIdx) h.new
  rw [List.map_map, List.map_map] at hmap
  rw [List.range_eq_range']
  exact hmap.trans (List.map_id _)

theorem hasInst_eq_false {name : String} (h : B.hasInst name = false) {i : Nat}
    (hi : i ∈ B.instTbl.allocated) : (B.inst i).name ≠ name := by
  intro hname
  exact absurd (decide_eq_false_iff_not.mp h) (not_not.mpr ⟨i, hi, hname⟩)

theorem instCreate_ok (hB : B.Ok) {m : MasterId} {name : String} {region i : Nat}
    {physicalOnly : Bool} {parentModule : Nat}
    (h : B.instCreate m name region physicalOnly parentModule = some (i, B')) : B'.Ok := by
  have hlists : B'.ListsOk :=
    instCreate_listsOk hB.toListsOk m name region physicalOnly parentModule B' (by rw [h]; rfl)
  rcases instCreate_cases h with ⟨-, -, rfl⟩ | ⟨hname, T, ts, B₂, hT, hiterms, rfl⟩
  · exact hB
  obtain ⟨hTok, hi0, hi, hall⟩ := hB.instTbl.create hT
  have hbase : (({ B with instTbl := T } : Block).record (.createInst m.lib m.id name i)).ListsOk :=
    { hB.toListsOk with instTbl := hTok }
  obtain ⟨hts, hlen, -⟩ := iTermsCreated hbase hiterms
  set o := B₂.newInst m name region physicalOnly parentModule ts with ho
  have hmaster : B₂.master = B.master := by rw [hts.eq]; rfl
  have hinst : B₂.inst = B.inst := by rw [hts.eq]; rfl
  have hmem : ∀ j, j ∈ (B₂.setInst i o).instTbl.allocated ↔ j = i ∨ j ∈ B.instTbl.allocated := by
    intro j
    have htbl : (B₂.setInst i o).instTbl = T := by
      change B₂.instTbl = T
      rw [hts.eq]
      rfl
    rw [htbl, hall, Finset.mem_insert]
  have hold : ∀ t, t ∉ ts → B₂.iterm t = B.iterm t := hts.old
  have hself : (B₂.setInst i o).inst i = o := Function.update_self _ _ _
  have hother : ∀ j ∈ B.instTbl.allocated, (B₂.setInst i o).inst j = B.inst j := by
    intro j hj
    have hne : j ≠ i := fun heq => hi (heq ▸ hj)
    exact (Function.update_of_ne hne _ _).trans (congrFun hinst j)
  refine ⟨hlists, ?_, ?_, ?_, ?_⟩
  · intro t ht
    change (B₂.iterm t).inst ∈ _ ∧ t ∈ ((B₂.setInst i o).inst (B₂.iterm t).inst).iterms
    by_cases htmem : t ∈ ts
    · rw [hts.inst htmem, hself]
      exact ⟨(hmem i).mpr (Or.inl rfl), htmem⟩
    · rw [hold t htmem]
      obtain ⟨hj, htj⟩ := hB.itermInst t (((hts.allocated t).mp ht).resolve_left htmem)
      exact ⟨(hmem _).mpr (Or.inr hj), by rw [hother _ hj]; exact htj⟩
  · intro j hj t ht
    change t ∈ B₂.itermTbl.allocated ∧ (B₂.iterm t).inst = j
    rw [hts.allocated]
    rcases (hmem j).mp hj with rfl | hj
    · rw [hself] at ht
      exact ⟨Or.inl ht, hts.inst ht⟩
    · rw [hother j hj] at ht
      obtain ⟨htB, htj⟩ := hB.instITerms j hj t ht
      refine ⟨Or.inr htB, ?_⟩
      rw [hold t fun htmem => hts.fresh t htmem htB]
      exact htj
  · intro j hj
    change ((B₂.setInst i o).inst j).iterms.map (fun t => (B₂.iterm t).mtermIdx) =
      List.range (B₂.master ((B₂.setInst i o).inst j).master).mterms.length
    rcases (hmem j).mp hj with rfl | hj
    · rw [hself, hmaster]
      exact hts.order.trans (congrArg List.range hlen)
    · rw [hother j hj, hmaster, ← hB.order j hj]
      refine List.map_congr_left fun t ht => ?_
      rw [hold t fun htmem => hts.fresh t htmem (hB.instITerms j hj t ht).1]
  · intro j hj l hl hjl
    rcases (hmem j).mp hj with rfl | hjB <;> rcases (hmem l).mp hl with rfl | hlB
    · rfl
    · rw [hself, hother l hlB] at hjl
      exact absurd hjl.symm (hasInst_eq_false hname hlB)
    · rw [hself, hother j hjB] at hjl
      exact absurd hjl (hasInst_eq_false hname hjB)
    · rw [hother j hjB, hother l hlB] at hjl
      exact hB.names j hjB l hlB hjl

/-! ### Destroying iterms -/

/-- Disconnect the iterms one after the other. -/
def disconnectAll (B : Block) : List Nat → Res Block
  | [] => .ok B
  | t :: ts => (B.itermDisconnect t).bind fun B => B.disconnectAll ts

/-- The iterms of an instance taken out of the table and off its list, where `l` remains. -/
def freeITerms (B : Block) (i : Nat) (T : DbTable) (l : List Nat) : Block :=
  { B with itermTbl := T }.setInst i { B.inst i with iterms := l }

theorem freeITerms_self (B : Block) (i : Nat) : B.freeITerms i B.itermTbl (B.inst i).iterms = B := by
  unfold freeITerms setInst
  rw [show ({ B.inst i with iterms := (B.inst i).iterms } : Inst) = B.inst i from rfl,
    Function.update_eq_self]

theorem freeITerms_freeITerms (B : Block) (i : Nat) (T T' : DbTable) (l l' : List Nat) :
    (B.freeITerms i T l).freeITerms i T' l' = B.freeITerms i T' l' := by
  simp [freeITerms, setInst]

theorem freeITerms_flags (B : Block) (i : Nat) (T : DbTable) (l : List Nat) (t : Nat) :
    ((B.freeITerms i T l).itermInst t).flags = (B.itermInst t).flags := by
  change (Function.update B.inst i { B.inst i with iterms := l } (B.iterm t).inst).flags =
    (B.inst (B.iterm t).inst).flags
  rcases eq_or_ne (B.iterm t).inst i with heq | hne
  · rw [heq, Function.update_self]
  · rw [Function.update_of_ne hne]

/-- Freeing iterms does not get in the way of disconnecting others. -/
theorem itermDisconnect_freeITerms {i : Nat} {T : DbTable} {l : List Nat} {t : Nat}
    (h : (B.freeITerms i T l).itermDisconnect t = .ok B') :
    ∃ B₁, B.itermDisconnect t = .ok B₁ ∧ B' = B₁.freeITerms i T l := by
  unfold itermDisconnect at h ⊢
  simp only [] at h ⊢
  rw [freeITerms_flags] at h
  change (if B.netITerms.owner t = 0 ∧ B.modNetITerms.owner t = 0 then _
    else if (B.itermInst t).flags.dontTouch = true then _
    else if B.netITerms.owner t ≠ 0 ∧ (B.net (B.netITerms.owner t)).dontTouch = true then _
    else _) = _ at h
  split_ifs at h ⊢
  · exact ⟨B, rfl, (Res.ok.inj h).symm⟩
  · exact ⟨_, rfl, (Res.ok.inj h).symm⟩

theorem disconnectAll_freeITerms {i : Nat} {T : DbTable} {l ts : List Nat}
    (h : (B.freeITerms i T l).disconnectAll ts = .ok B') :
    ∃ B₁, B.disconnectAll ts = .ok B₁ ∧ B' = B₁.freeITerms i T l := by
  induction ts generalizing B with
  | nil => exact ⟨B, rfl, (Res.ok.inj h).symm⟩
  | cons t ts ih =>
      rw [disconnectAll] at h
      cases hC : (B.freeITerms i T l).itermDisconnect t with
      | error code C => rw [hC] at h; exact absurd h (by simp)
      | abort => rw [hC] at h; exact absurd h (by simp)
      | ok C =>
          obtain ⟨B₁, hB₁, rfl⟩ := itermDisconnect_freeITerms hC
          rw [hC, Res.bind_ok] at h
          obtain ⟨B₂, hB₂, hB'⟩ := ih h
          exact ⟨B₂, by rw [disconnectAll, hB₁, Res.bind_ok, hB₂], hB'⟩

/-- Disconnecting and destroying the iterms in turn is disconnecting all and then destroying all. -/
theorem destroyITerms_ok {i : Nat} {ts : List Nat} (h : B.destroyITerms i ts = .ok B') :
    ∃ B₁ T, B.disconnectAll ts = .ok B₁ ∧ B.itermTbl.destroys ts = some T ∧
      B' = B₁.freeITerms i T (List.dropLast^[ts.length] (B.inst i).iterms) := by
  induction ts generalizing B with
  | nil =>
      obtain rfl := Res.ok.inj h
      exact ⟨B, B.itermTbl, rfl, rfl, (freeITerms_self B i).symm⟩
  | cons t ts ih =>
      rw [destroyITerms] at h
      cases hB₁ : B.itermDisconnect t with
      | error code C => rw [hB₁] at h; exact absurd h (by simp)
      | abort => rw [hB₁] at h; exact absurd h (by simp)
      | ok B₁ =>
          rw [hB₁, Res.bind_ok] at h
          have hsame := itermDisconnect_sameInsts t B₁ (by rw [hB₁]; rfl)
          cases hT₁ : B₁.itermTbl.destroy t with
          | none => simp only [hT₁] at h; exact absurd h (by simp)
          | some T₁ =>
              simp only [hT₁] at h
              obtain ⟨C, T, hC, hT, hB'⟩ :=
                ih (B := B₁.freeITerms i T₁ (B₁.inst i).iterms.dropLast) h
              obtain ⟨B₂, hB₂, rfl⟩ := disconnectAll_freeITerms hC
              refine ⟨B₂, T, by rw [disconnectAll, hB₁, Res.bind_ok, hB₂], ?_, ?_⟩
              · rw [hsame.itermTbl] at hT₁
                rw [DbTable.destroys, Run.run_cons, hT₁, Option.bind_some]
                exact hT
              · rw [hB', freeITerms_freeITerms, List.length_cons, Function.iterate_succ_apply,
                  ← hsame.inst]
                congr 2
                change (Function.update B₁.inst i _ i).iterms = _
                rw [Function.update_self]

theorem disconnectAll_sameInsts (ts : List Nat) : (B.disconnectAll ts).All (SameInsts B) := by
  induction ts generalizing B with
  | nil => exact Res.all_ok (SameInsts.refl B)
  | cons t ts ih =>
      refine (itermDisconnect_sameInsts t).bind fun B₁ _ h => ?_
      exact fun B' hB' => h.trans (ih B' hB')

theorem disconnectAll_listsOk (h : B.ListsOk) (ts : List Nat) :
    (B.disconnectAll ts).All ListsOk := by
  induction ts generalizing B with
  | nil => exact Res.all_ok h
  | cons t ts ih => exact (itermDisconnect_listsOk h t).bind fun B₁ _ h₁ => ih h₁

theorem iterate_dropLast (l : List Nat) : List.dropLast^[l.length] l = [] := by
  induction hn : l.length generalizing l with
  | zero => exact List.length_eq_zero_iff.mp hn
  | succ n ih =>
      rw [Function.iterate_succ_apply]
      exact ih l.dropLast (by rw [List.length_dropLast, hn]; rfl)

/-- The action that destroying an instance is journaled with. -/
def deleteRecord (i : Nat) (o : Inst) : Record :=
  .deleteInst o.master.lib o.master.id o.name i o.flags o.x o.y o.group o.module o.region

/-- What `dbInst::destroy` did, where it returned. -/
theorem instDestroy_ok_eq {i : Nat} (h : B.instDestroy i = .ok B') :
    (B.inst i).flags.dontTouch = false ∧ ∃ B₁ T T',
      B.disconnectAll (B.inst i).iterms.reverse = .ok B₁ ∧
      B.itermTbl.destroys (B.inst i).iterms.reverse = some T ∧ B.instTbl.destroy i = some T' ∧
      B' = { (B₁.freeITerms i T []).record (deleteRecord i (B.inst i)) with instTbl := T' } := by
  unfold instDestroy at h
  split_ifs at h with hdont
  refine ⟨Bool.eq_false_of_not_eq_true hdont, ?_⟩
  cases hC : B.destroyITerms i (B.inst i).iterms.reverse with
  | error code C => rw [hC] at h; exact absurd h (by simp)
  | abort => rw [hC] at h; exact absurd h (by simp)
  | ok C =>
      obtain ⟨B₁, T, hB₁, hT, rfl⟩ := destroyITerms_ok hC
      have hsame := disconnectAll_sameInsts _ B₁ (by rw [hB₁]; rfl)
      rw [hC, Res.bind_ok, List.length_reverse, iterate_dropLast] at h
      simp only [] at h
      have hinst : (B₁.freeITerms i T []).inst i = { B.inst i with iterms := [] } := by
        change Function.update B₁.inst i { B₁.inst i with iterms := [] } i = _
        rw [Function.update_self, hsame.inst]
      rw [hinst] at h
      have htbl : ∀ r, ((B₁.freeITerms i T []).record r).instTbl = B.instTbl := fun _ => hsame.instTbl
      rw [htbl] at h
      cases hT' : B.instTbl.destroy i with
      | none => rw [hT'] at h; exact absurd h (by simp)
      | some T' =>
          rw [hT'] at h
          exact ⟨B₁, T, T', hB₁, hT, rfl, (Res.ok.inj h).symm⟩

theorem instDestroy_ok (hB : B.Ok) {i : Nat} (h : B.instDestroy i = .ok B') : B'.Ok := by
  have hlists : B'.ListsOk := instDestroy_listsOk hB.toListsOk i B' (by rw [h]; rfl)
  obtain ⟨-, B₁, T, T', hB₁, hT, hT', rfl⟩ := instDestroy_ok_eq h
  obtain ⟨hmaster, -, -, hinst, hiterm⟩ := disconnectAll_sameInsts _ B₁ (by rw [hB₁]; rfl)
  obtain ⟨-, hi, hall⟩ := hB.instTbl.destroy hT'
  obtain ⟨-, hTmem⟩ := hB.itermTbl.destroys hT
  have hmem : ∀ j, j ∈ T'.allocated ↔ j ≠ i ∧ j ∈ B.instTbl.allocated := by
    intro j
    rw [hall, Finset.mem_erase]
  have hother : ∀ j, j ≠ i → (B₁.freeITerms i T []).inst j = B.inst j := by
    intro j hj
    exact (Function.update_of_ne hj _ _).trans (congrFun hinst j)
  refine ⟨hlists, ?_, ?_, ?_, ?_⟩
  · intro t ht
    obtain ⟨htB, htmem⟩ := (hTmem t).mp ht
    obtain ⟨hj, htj⟩ := hB.itermInst t htB
    have hne : (B.iterm t).inst ≠ i := fun heq => htmem (by rw [← heq]; exact List.mem_reverse.mpr htj)
    change (B₁.iterm t).inst ∈ T'.allocated ∧
      t ∈ ((B₁.freeITerms i T []).inst (B₁.iterm t).inst).iterms
    rw [hiterm, hother _ hne]
    exact ⟨(hmem _).mpr ⟨hne, hj⟩, htj⟩
  · intro j hj t ht
    obtain ⟨hne, hjB⟩ := (hmem j).mp hj
    change t ∈ ((B₁.freeITerms i T []).inst j).iterms at ht
    rw [hother j hne] at ht
    obtain ⟨htB, htj⟩ := hB.instITerms j hjB t ht
    change t ∈ T.allocated ∧ (B₁.iterm t).inst = j
    rw [hTmem, hiterm]
    refine ⟨⟨htB, fun htmem => hne ?_⟩, htj⟩
    rw [← htj]
    exact (hB.instITerms i hi t (List.mem_reverse.mp htmem)).2
  · intro j hj
    obtain ⟨hne, hjB⟩ := (hmem j).mp hj
    change ((B₁.freeITerms i T []).inst j).iterms.map (fun t => (B₁.iterm t).mtermIdx) =
      List.range (B₁.master ((B₁.freeITerms i T []).inst j).master).mterms.length
    rw [hother j hne, hiterm, hmaster]
    exact hB.order j hjB
  · intro j hj l hl hjl
    obtain ⟨hnej, hjB⟩ := (hmem j).mp hj
    obtain ⟨hnel, hlB⟩ := (hmem l).mp hl
    change ((B₁.freeITerms i T []).inst j).name = ((B₁.freeITerms i T []).inst l).name at hjl
    rw [hother j hnej, hother l hnel] at hjl
    exact hB.names j hjB l hlB hjl

/-! ### Placement -/

/-- An instance may be changed in all that its iterms and its name do not depend on. -/
theorem Ok.setInst (hB : B.Ok) {i : Nat} {o : Inst} (hname : o.name = (B.inst i).name)
    (hmaster : o.master = (B.inst i).master) (hiterms : o.iterms = (B.inst i).iterms) :
    (B.setInst i o).Ok := by
  have hsame : ∀ j, ((B.setInst i o).inst j).name = (B.inst j).name ∧
      ((B.setInst i o).inst j).master = (B.inst j).master ∧
      ((B.setInst i o).inst j).iterms = (B.inst j).iterms := by
    intro j
    change ((Function.update B.inst i o) j).name = _ ∧ ((Function.update B.inst i o) j).master = _ ∧
      ((Function.update B.inst i o) j).iterms = _
    rcases eq_or_ne j i with rfl | hne
    · rw [Function.update_self]
      exact ⟨hname, hmaster, hiterms⟩
    · rw [Function.update_of_ne hne]
      exact ⟨rfl, rfl, rfl⟩
  refine ⟨hB.toListsOk.setInst i o, ?_, ?_, ?_, ?_⟩
  · intro t ht
    rw [(hsame _).2.2]
    exact hB.itermInst t ht
  · intro j hj t ht
    rw [(hsame j).2.2] at ht
    exact hB.instITerms j hj t ht
  · intro j hj
    rw [(hsame j).2.1, (hsame j).2.2]
    exact hB.order j hj
  · intro j hj l hl hjl
    rw [(hsame j).1, (hsame l).1] at hjl
    exact hB.names j hj l hl hjl

theorem Ok.record (hB : B.Ok) (r : Record) : (B.record r).Ok :=
  ⟨hB.toListsOk.record r, hB.itermInst, hB.instITerms, hB.order, hB.names⟩

theorem Ok.setInstBBox (hB : B.Ok) (i : Nat) : (B.setInstBBox i).Ok := hB.setInst rfl rfl rfl

theorem instSetOrigin_all_ok (hB : B.Ok) (i : Nat) (x y : Int) : (B.instSetOrigin i x y).All Ok := by
  unfold instSetOrigin
  simp only []
  split_ifs
  · exact Res.all_ok hB
  · exact Res.all_error hB
  · refine Res.all_ok (Ok.record (Ok.setInstBBox ?_ i) _)
    exact hB.setInst rfl rfl rfl

theorem instSetOrient_all_ok (hB : B.Ok) (i : Nat) (orient : Orient) :
    (B.instSetOrient i orient).All Ok := by
  unfold instSetOrient
  simp only []
  split_ifs
  · exact Res.all_ok hB
  · exact Res.all_error hB
  · refine Res.all_ok (Ok.record (Ok.setInstBBox ?_ i) _)
    exact hB.setInst rfl rfl rfl

theorem instSetPlacementStatus_ok (hB : B.Ok) (i : Nat) (status : PlacementStatus) :
    (B.instSetPlacementStatus i status).Ok := by
  unfold instSetPlacementStatus
  simp only []
  split_ifs
  · exact hB
  · refine Ok.record ?_ _
    exact hB.setInst rfl rfl rfl

end Block

end OpenRoad.Db
