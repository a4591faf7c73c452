import OpenRoad.DbModule

/-!
Looking up the instances of a module by name. The hash of a module agrees with its list in every state
reached without moving an instance from one module to another and without renaming one in a module.
-/

namespace OpenRoad.Db
open LinkedList
open PinBlock (setEntry)

/-! ### Links of instances in no module -/

/-- What is on no list has no `prev` link. -/
def Unlinked (s : Lists) : Prop := ∀ t, s.owner t = 0 → s.prev t = 0

theorem linkFirst_eq_push {s : Lists} {t n : Nat} (hprev : s.prev t = 0) (hhead : s.head n ≠ t) :
    linkFirst s t n = s.push t n := by
  unfold linkFirst Lists.push pushPrev
  congr 1
  by_cases hzero : s.head n = 0
  · rw [if_pos hzero, if_neg (not_not.mpr hzero)]
  · rw [if_neg hzero, if_pos hzero, eq_comm, Function.update_eq_self_iff,
      Function.update_of_ne hhead.symm]
    exact hprev.symm

theorem Unlinked.clearMember {s : Lists} (h : Unlinked s) (t : Nat) : Unlinked (s.clearMember t) := by
  intro a ha
  change Function.update s.prev t 0 a = 0
  by_cases hat : a = t
  · rw [hat, Function.update_self]
  · rw [Function.update_of_ne hat]
    rw [Lists.owner_clearMember, Function.update_of_ne hat] at ha
    exact h a ha

variable {s : Lists} {members owners : Finset Nat} {t n : Nat}

theorem Unlinked.linkFirst (h : Unlinked s) (hs : s.Over members owners) (hn : n ∈ owners) :
    Unlinked (linkFirst s t n) := by
  have hn0 := hs.owner_ne_zero hn
  intro a ha
  have hat : a ≠ t := by
    rintro rfl
    exact hn0 ((Function.update_self _ _ _).symm.trans ha)
  have howner : s.owner a = 0 := (Function.update_of_ne hat _ _).symm.trans ha
  change (if s.head n = 0 then _ else _ : Nat → Nat) a = 0
  split_ifs with hhead
  · rw [Function.update_of_ne hat]
    exact h a howner
  · obtain ⟨l, hl⟩ := hs.wf n hn0
    have hne : a ≠ s.head n := by
      rintro rfl
      exact hn0 (((hl.mem_iff _).mp (hl.chain.head_mem hhead)).2.symm.trans howner)
    rw [Function.update_of_ne hne]
    exact h a howner

theorem Unlinked.unlink (h : Unlinked s) (hs : s.Over members owners) (howner : s.owner t = n)
    (hn : n ≠ 0) : Unlinked ((s.unlink t n).clearMember t) := by
  obtain ⟨l, hl⟩ := hs.wf n hn
  have ht : t ≠ 0 := hs.member_ne_zero (hs.member t (by rw [howner]; exact hn))
  have htl : t ∈ l := (hl.mem_iff t).mpr ⟨ht, howner⟩
  intro a ha
  change Function.update (s.unlink t n).prev t 0 a = 0
  by_cases hat : a = t
  · rw [hat, Function.update_self]
  · rw [Lists.owner_clearMember, Function.update_of_ne hat, Lists.owner_unlink,
      Function.update_of_ne hat] at ha
    have hne : s.next t ≠ 0 → a ≠ s.next t := by
      rintro hnext rfl
      have hmem := (hl.chain.next_mem htl).resolve_left hnext
      exact hn (((hl.mem_iff _).mp hmem).2.symm.trans ha)
    have hprev : (s.unlink t n).prev a = s.prev a := by
      unfold Lists.unlink unlinkPrev
      split_ifs with hhead hnext hnext
      · exact Function.update_of_ne (hne hnext) _ _
      · rfl
      · exact Function.update_of_ne (hne hnext) _ _
      · rfl
    rw [Function.update_of_ne hat, hprev]
    exact h a ha

/-! ### What the calls of the netlist leave alone -/

namespace Block

/-- The table of the instances and their names are the same. -/
structure SameNames (B B' : Block) : Prop where
  instTbl : B'.instTbl = B.instTbl
  name : ∀ i, (B'.inst i).name = (B.inst i).name

variable {B B' : Block}

theorem SameNames.refl (B : Block) : SameNames B B := ⟨rfl, fun _ => rfl⟩

theorem SameNames.trans {B'' : Block} (h : SameNames B B') (h' : SameNames B' B'') :
    SameNames B B'' :=
  ⟨h'.instTbl.trans h.instTbl, fun i => (h'.name i).trans (h.name i)⟩

theorem SameInsts.sameNames (h : SameInsts B B') : SameNames B B' :=
  ⟨h.instTbl, fun i => by rw [h.inst]⟩

theorem sameNames_setInst {i : Nat} {o : Inst} (hname : o.name = (B.inst i).name) :
    SameNames B (B.setInst i o) := by
  refine ⟨rfl, fun j => ?_⟩
  change (Function.update B.inst i o j).name = _
  rcases eq_or_ne j i with rfl | hne
  · rw [Function.update_self, hname]
  · rw [Function.update_of_ne hne]

theorem destroyITerms_sameNames (i : Nat) (ts : List Nat) :
    (B.destroyITerms i ts).All (SameNames B) := by
  induction ts generalizing B with
  | nil => exact Res.all_ok (SameNames.refl B)
  | cons t ts ih =>
      have hdisconnect : (B.itermDisconnect t).All (SameNames B) := fun B' h =>
        (itermDisconnect_sameInsts t B' h).sameNames
      refine hdisconnect.bind fun B₁ _ h₁ => ?_
      cases hT : B₁.itermTbl.destroy t with
      | none => exact Res.all_abort
      | some T =>
          intro B' h'
          have hset := @sameNames_setInst { B₁ with itermTbl := T } i
            { B₁.inst i with iterms := (B₁.inst i).iterms.dropLast } rfl
          have hrest := @ih ({ B₁ with itermTbl := T }.setInst i
            { B₁.inst i with iterms := (B₁.inst i).iterms.dropLast }) B' h'
          exact h₁.trans (SameNames.trans ⟨hset.instTbl, hset.name⟩ hrest)

theorem instDestroy_error_sameNames {i code : Nat} (h : B.instDestroy i = .error code B') :
    SameNames B B' := by
  unfold instDestroy at h
  split_ifs at h
  · obtain ⟨-, rfl⟩ := Res.error.inj h
    exact SameNames.refl B
  · have hsame := destroyITerms_sameNames (B := B) i (B.inst i).iterms.reverse
    cases hC : B.destroyITerms i (B.inst i).iterms.reverse with
    | abort => rw [hC] at h; exact absurd h (by simp)
    | error code' C =>
        rw [hC] at h hsame
        obtain ⟨-, rfl⟩ := Res.error.inj h
        exact hsame C rfl
    | ok C =>
        rw [hC, Res.bind_ok] at h
        dsimp only at h
        split at h <;> exact absurd h (by simp)

theorem instDestroy_ok_names {i : Nat} (h : B.instDestroy i = .ok B') :
    B.instTbl.destroy i = some B'.instTbl ∧ ∀ j, (B'.inst j).name = (B.inst j).name := by
  obtain ⟨-, B₁, T, T', hdisconnect, -, hT', rfl⟩ := instDestroy_ok_eq h
  have hsame := disconnectAll_sameInsts _ B₁ (by rw [hdisconnect]; rfl)
  have hnames := sameNames_setInst (B := B₁) (i := i) (o := { B₁.inst i with iterms := [] }) rfl
  exact ⟨hT', fun j => (hnames.name j).trans (by rw [hsame.inst])⟩

theorem createITerms_inst {i k n : Nat} {ts : List Nat}
    (h : B.createITerms i k n = some (ts, B')) : B'.instTbl = B.instTbl ∧ B'.inst = B.inst := by
  induction n generalizing B k ts with
  | zero =>
      obtain ⟨-, rfl⟩ := Prod.mk.inj (Option.some.inj h)
      exact ⟨rfl, rfl⟩
  | succ n ih =>
      obtain ⟨t, rest, T, -, hrest, -⟩ := createITerms_succ h
      exact @ih (B.createITerm T t i k) _ _ hrest

/-- A new instance gets a new id and a name that no other has. -/
theorem instCreate_names {m : MasterId} {name : String} {region : Nat} {physicalOnly : Bool}
    {parentModule i : Nat} (hB : B.instTbl.Ok)
    (h : B.instCreate m name region physicalOnly parentModule = some (i, B')) :
    i = 0 ∧ B' = B ∨
      i ≠ 0 ∧ B'.instTbl.Ok ∧ i ∉ B.instTbl.allocated ∧
        B'.instTbl.allocated = insert i B.instTbl.allocated ∧ (B'.inst i).name = name ∧
        (∀ j ∈ B.instTbl.allocated, (B.inst j).name ≠ name) ∧
        ∀ j, j ≠ i → (B'.inst j).name = (B.inst j).name := by
  rcases instCreate_cases h with ⟨-, rfl, rfl⟩ | ⟨hname, T, ts, B₂, hT, hiterms, rfl⟩
  · exact Or.inl ⟨rfl, rfl⟩
  · obtain ⟨htbl, hinst⟩ := createITerms_inst hiterms
    obtain ⟨hok, hi0, hi, hall⟩ := hB.create hT
    have htbl' : B₂.instTbl = T := htbl
    refine Or.inr ⟨hi0, ?_, hi, ?_, ?_, fun j hj => hasInst_eq_false hname hj, fun j hj => ?_⟩
    · change B₂.instTbl.Ok
      rw [htbl']
      exact hok
    · change B₂.instTbl.allocated = _
      rw [htbl', hall]
    · exact congrArg Inst.name (Function.update_self i _ B₂.inst)
    · exact (congrArg Inst.name (Function.update_of_ne hj _ B₂.inst)).trans (by rw [hinst]; rfl)

end Block

/-! ### The hash of a module and its list -/

namespace ModuleBlock

/-- The tables are in order, no two instances have the same name, and the hash of each module has the
instances in it by their names. -/
structure Inv (P : ModuleBlock) : Prop where
  instTbl : P.block.instTbl.Ok
  moduleTbl : P.moduleTbl.Ok
  topModule : P.topModule ∈ P.moduleTbl.allocated
  names : ∀ i ∈ P.block.instTbl.allocated, ∀ j ∈ P.block.instTbl.allocated,
    (P.block.inst i).name = (P.block.inst j).name → i = j
  lists : P.moduleInsts.Over P.block.instTbl.allocated P.moduleTbl.allocated
  unlinked : Unlinked P.moduleInsts
  hash : ∀ m ∈ P.moduleTbl.allocated, ∀ name i, P.dbinstHash m name = some i ↔
    i ∈ P.block.instTbl.allocated ∧ P.moduleInsts.owner i = m ∧ (P.block.inst i).name = name

/-- The list of each module is in order, and a name is found in the module exactly where the list has
a live instance of that name, and then that one is found. -/
def LookupOk (P : ModuleBlock) : Prop :=
  ∀ m ∈ P.moduleTbl.allocated, ∃ l, ListOf P.moduleInsts P.block.instTbl.allocated m l ∧
    ∀ name i, P.findDbInst m name = some i ↔ i ∈ l ∧ (P.block.inst i).name = name

/-- No instance is moved from one module to another, and none in a module is renamed, by a call that
goes through. -/
def KeepsLookup (P : ModuleBlock) : ModuleOp → Prop
  | .addInst m i => P.moduleInsts.owner i = 0 ∨ P.moduleInsts.owner i = m ∨
      (P.block.inst i).flags.physicalOnly = true ∨ (P.block.inst i).flags.dontTouch = true
  | .instRename i name => P.moduleInsts.owner i = 0 ∨ P.block.hasInst name = true
  | _ => True

instance (P : ModuleBlock) (op : ModuleOp) : Decidable (P.KeepsLookup op) := by
  cases op <;> unfold KeepsLookup <;> infer_instance

variable {P P' : ModuleBlock}

theorem Inv.lookupOk (h : P.Inv) : P.LookupOk := by
  intro m hm
  obtain ⟨l, hl⟩ := listOf_of_over h.lists hm
  refine ⟨l, hl, fun name i => ?_⟩
  unfold findDbInst
  rw [h.hash m hm, hl.mem_iff, and_assoc]

theorem Inv.ofBlock (h : P.Inv) {B : Block} (hB : Block.SameNames P.block B) :
    Inv { P with block := B } := by
  obtain ⟨htbl, hname⟩ := hB
  refine ⟨?_, h.moduleTbl, h.topModule, ?_, ?_, h.unlinked, ?_⟩
  · rw [htbl]; exact h.instTbl
  · simp only [htbl, hname]; exact h.names
  · rw [htbl]; exact h.lists
  · simp only [htbl, hname]; exact h.hash

theorem setEntry_self (hash : Nat → String → Option Nat) (m : Nat) (name name' : String)
    (e : Option Nat) :
    setEntry hash m name e m name' = if name' = name then e else hash m name' := by
  unfold setEntry
  rw [Function.update_self, Function.update_apply]

theorem setEntry_of_ne (hash : Nat → String → Option Nat) {m m' : Nat} (hne : m' ≠ m) (name : String)
    (e : Option Nat) : setEntry hash m name e m' = hash m' := by
  unfold setEntry
  rw [Function.update_of_ne hne]

/-! ### Steps -/

/-- An instance in no module is added to one. -/
theorem Inv.link (h : P.Inv) {m i : Nat} (hm : m ∈ P.moduleTbl.allocated)
    (hi : i ∈ P.block.instTbl.allocated) (howner : P.moduleInsts.owner i = 0) :
    Inv { P with
      block := P.setModule i m
      moduleInsts := linkFirst P.moduleInsts i m
      dbinstHash := setEntry P.dbinstHash m (P.block.inst i).name (some i) } := by
  have hm0 := h.lists.owner_ne_zero hm
  have hset : Block.SameNames P.block (P.setModule i m) := Block.sameNames_setInst rfl
  have hhead : P.moduleInsts.head m ≠ i := by
    rintro rfl
    obtain ⟨l, hl⟩ := h.lists.wf m hm0
    have hmem := hl.chain.head_mem (h.lists.member_ne_zero hi)
    exact hm0 (((hl.mem_iff _).mp hmem).2.symm.trans howner)
  have hpush := linkFirst_eq_push (h.unlinked i howner) hhead
  refine ⟨h.instTbl, h.moduleTbl, h.topModule, ?_, ?_, h.unlinked.linkFirst h.lists hm, ?_⟩
  · simp only [hset.name]
    exact h.names
  · change (linkFirst P.moduleInsts i m).Over P.block.instTbl.allocated P.moduleTbl.allocated
    rw [hpush]
    exact h.lists.push hi hm howner
  · intro m' hm' name j
    rw [hset.name]
    change setEntry P.dbinstHash m (P.block.inst i).name (some i) m' name = some j ↔
      j ∈ P.block.instTbl.allocated ∧ Function.update P.moduleInsts.owner i m j = m' ∧ _
    have hold := h.hash m' hm' name j
    have hm'0 := h.lists.owner_ne_zero hm'
    rcases eq_or_ne m' m with rfl | hne
    · rw [setEntry_self]
      split_ifs with hname
      · constructor
        · intro heq
          obtain rfl := Option.some.inj heq
          exact ⟨hi, Function.update_self _ _ _, hname.symm⟩
        · rintro ⟨hj, -, hjname⟩
          rw [h.names i hi j hj (hname.symm.trans hjname.symm)]
      · rw [hold]
        rcases eq_or_ne j i with rfl | hji
        · refine iff_of_false ?_ ?_
          · rintro ⟨-, -, hjname⟩
            exact hname hjname.symm
          · rintro ⟨-, -, hjname⟩
            exact hname hjname.symm
        · rw [Function.update_of_ne hji]
    · rw [setEntry_of_ne _ hne, hold]
      rcases eq_or_ne j i with rfl | hji
      · rw [Function.update_self, howner]
        refine iff_of_false ?_ ?_
        · rintro ⟨-, hzero, -⟩
          exact hm'0 hzero.symm
        · rintro ⟨-, heq, -⟩
          exact hne heq.symm
      · rw [Function.update_of_ne hji]

theorem addInst_inv (h : P.Inv) {m i : Nat} (hm : m ∈ P.moduleTbl.allocated)
    (hi : i ∈ P.block.instTbl.allocated) (hok : P.KeepsLookup (.addInst m i)) :
    (P.addInst m i).All Inv := by
  unfold addInst
  dsimp only
  split_ifs with hphysical hsame hdont howner
  · exact Res.all_error h
  · exact Res.all_ok h
  · exact Res.all_error h
  · exact Res.all_ok (h.link hm hi howner)
  · rcases hok with hok | hok | hok | hok
    · exact absurd hok howner
    · exact absurd hok hsame
    · exact absurd hok hphysical
    · exact absurd hok hdont

theorem instCreate_inv (h : P.Inv) {master : MasterId} {name : String} {region : Nat}
    {physicalOnly : Bool} {parentModule : Nat}
    (hparent : parentModule = 0 ∨ parentModule ∈ P.moduleTbl.allocated) :
    (P.instCreate master name region physicalOnly parentModule).All Inv := by
  unfold instCreate
  cases hcreate : P.block.instCreate master name region physicalOnly parentModule with
  | none => exact Res.all_abort
  | some r =>
      obtain ⟨i, B⟩ := r
      dsimp only
      rcases Block.instCreate_names h.instTbl hcreate with
        ⟨rfl, -⟩ | ⟨hi0, hB, hi, hall, hname, hnew, hother⟩
      · rw [if_pos rfl]
        exact Res.all_ok h
      · rw [if_neg hi0]
        have hold : ∀ j ∈ P.block.instTbl.allocated, (B.inst j).name = (P.block.inst j).name :=
          fun j hj => hother j fun heq => hi (heq ▸ hj)
        have howner : P.moduleInsts.owner i = 0 := h.lists.owner_eq_zero hi
        have hinv : Inv { P with block := B, moduleInsts := P.moduleInsts.clearMember i } := by
          refine ⟨hB, h.moduleTbl, h.topModule, ?_, ?_, h.unlinked.clearMember i, ?_⟩
          · intro j hj k hk hjk
            rw [hall, Finset.mem_insert] at hj hk
            rcases hj with rfl | hj <;> rcases hk with rfl | hk
            · rfl
            · exact absurd ((hold k hk).symm.trans (hjk.symm.trans hname)) (hnew k hk)
            · exact absurd ((hold j hj).symm.trans (hjk.trans hname)) (hnew j hj)
            · exact h.names j hj k hk (by rw [← hold j hj, ← hold k hk, hjk])
          · rw [hall]
            exact h.lists.insertMember hi hi0
          · intro m hm name' j
            have hm0 := h.lists.owner_ne_zero hm
            change P.dbinstHash m name' = some j ↔ j ∈ B.instTbl.allocated ∧
              Function.update P.moduleInsts.owner i 0 j = m ∧ _
            rw [h.hash m hm, hall, Finset.mem_insert]
            rcases eq_or_ne j i with rfl | hji
            · refine iff_of_false (fun hj => hi hj.1) ?_
              rintro ⟨-, hzero, -⟩
              rw [Function.update_self] at hzero
              exact hm0 hzero.symm
            · rw [Function.update_of_ne hji, hother j hji]
              exact and_congr_left fun _ => ⟨Or.inr, fun hj => hj.resolve_left hji⟩
        split_ifs with hphysical hne
        · exact Res.all_ok hinv
        · refine addInst_inv hinv (hparent.resolve_left hne) ?_ (Or.inl (Function.update_self _ _ _))
          change i ∈ B.instTbl.allocated
          rw [hall]
          exact Finset.mem_insert_self _ _
        · refine addInst_inv hinv h.topModule ?_ (Or.inl (Function.update_self _ _ _))
          change i ∈ B.instTbl.allocated
          rw [hall]
          exact Finset.mem_insert_self _ _

/-- An instance that is destroyed leaves the hash of its module. -/
theorem instDestroy_inv (h : P.Inv) (i : Nat) : (P.instDestroy i).All Inv := by
  unfold instDestroy
  cases hdestroy : P.block.instDestroy i with
  | abort => exact Res.all_abort
  | error code B => exact Res.all_error (h.ofBlock (Block.instDestroy_error_sameNames hdestroy))
  | ok B =>
      obtain ⟨htbl, hname⟩ := Block.instDestroy_ok_names hdestroy
      obtain ⟨hB, hi, hall⟩ := h.instTbl.destroy htbl
      have hnames : ∀ j ∈ B.instTbl.allocated, ∀ k ∈ B.instTbl.allocated,
          (B.inst j).name = (B.inst k).name → j = k := by
        intro j hj k hk hjk
        rw [hall] at hj hk
        rw [hname, hname] at hjk
        exact h.names j (Finset.mem_of_mem_erase hj) k (Finset.mem_of_mem_erase hk) hjk
      have hlive : ∀ j, j ∈ B.instTbl.allocated ↔ j ≠ i ∧ j ∈ P.block.instTbl.allocated := by
        intro j
        rw [hall, Finset.mem_erase]
      dsimp only
      split_ifs with howner
      · refine Res.all_ok ⟨hB, h.moduleTbl, h.topModule, hnames, ?_, h.unlinked, ?_⟩
        · rw [hall]
          exact h.lists.eraseMember howner
        · intro m hm name j
          change P.dbinstHash m name = some j ↔ j ∈ B.instTbl.allocated ∧
            P.moduleInsts.owner j = m ∧ (B.inst j).name = name
          rw [h.hash m hm, hlive, hname]
          constructor
          · rintro ⟨hj, hjm, hjname⟩
            refine ⟨⟨?_, hj⟩, hjm, hjname⟩
            rintro rfl
            exact h.lists.owner_ne_zero hm (hjm.symm.trans howner)
          · rintro ⟨⟨-, hj⟩, hjm, hjname⟩
            exact ⟨hj, hjm, hjname⟩
      · have hunlink := h.lists.unlink rfl howner
        have hclear : ((P.moduleInsts.unlink i (P.moduleInsts.owner i)).clearMember i).Over
            P.block.instTbl.allocated P.moduleTbl.allocated :=
          hunlink.clearMember (by rw [Lists.owner_unlink, Function.update_self])
        have hnewOwner : ((P.moduleInsts.unlink i (P.moduleInsts.owner i)).clearMember i).owner =
            Function.update P.moduleInsts.owner i 0 := by
          rw [Lists.owner_clearMember, Lists.owner_unlink, Function.update_idem]
        refine Res.all_ok ⟨hB, h.moduleTbl, h.topModule, hnames, ?_,
          h.unlinked.unlink h.lists rfl howner, ?_⟩
        · rw [hall]
          exact hclear.eraseMember (by rw [hnewOwner, Function.update_self])
        · intro m hm name j
          have hold := h.hash m hm name j
          change setEntry P.dbinstHash (P.moduleInsts.owner i) (P.block.inst i).name none m name =
            some j ↔ j ∈ B.instTbl.allocated ∧
              ((P.moduleInsts.unlink i (P.moduleInsts.owner i)).clearMember i).owner j = m ∧
                (B.inst j).name = name
          rw [hlive, hname, hnewOwner]
          rcases eq_or_ne j i with rfl | hji
          · refine iff_of_false ?_ fun hj => hj.1.1 rfl
            rcases eq_or_ne m (P.moduleInsts.owner j) with rfl | hne
            · rw [setEntry_self]
              split_ifs with hjname
              · exact not_false
              · rw [hold]
                exact fun hj => hjname hj.2.2.symm
            · rw [setEntry_of_ne _ hne, hold]
              exact fun hj => hne hj.2.1.symm
          · have hkeep : setEntry P.dbinstHash (P.moduleInsts.owner i) (P.block.inst i).name none m
                name = some j ↔ P.dbinstHash m name = some j := by
              rcases eq_or_ne m (P.moduleInsts.owner i) with rfl | hne
              · rw [setEntry_self]
                split_ifs with hjname
                · refine iff_of_false not_false ?_
                  rw [hold]
                  rintro ⟨hj, -, hjname'⟩
                  exact hji (h.names j hj i hi (hjname'.trans hjname))
                · exact Iff.rfl
              · rw [setEntry_of_ne _ hne]
            rw [hkeep, hold, Function.update_of_ne hji]
            exact and_congr_left fun _ => ⟨fun hj => ⟨hji, hj⟩, And.right⟩

theorem instRename_inv (h : P.Inv) {i : Nat} {name : String} (hi : i ∈ P.block.instTbl.allocated)
    (hok : P.KeepsLookup (.instRename i name)) : (P.instRename i name).Inv := by
  unfold instRename
  split_ifs with hname
  · exact h
  · have hfresh : ∀ j ∈ P.block.instTbl.allocated, (P.block.inst j).name ≠ name :=
      fun j hj => Block.hasInst_eq_false (Bool.eq_false_iff.mpr hname) hj
    have howner : P.moduleInsts.owner i = 0 := hok.resolve_right hname
    have hself : (Function.update P.block.inst i { P.block.inst i with name := name } i).name = name := by
      rw [Function.update_self]
    have hother : ∀ j, j ≠ i → Function.update P.block.inst i { P.block.inst i with name := name } j =
        P.block.inst j := fun j hj => Function.update_of_ne hj _ _
    refine ⟨h.instTbl, h.moduleTbl, h.topModule, ?_, h.lists, h.unlinked, ?_⟩
    · intro j hj k hk hjk
      change (Function.update P.block.inst i _ j).name = (Function.update P.block.inst i _ k).name at hjk
      rcases eq_or_ne j i with rfl | hji <;> rcases eq_or_ne k j with hkj | hkj
      · exact hkj.symm
      · rw [hself, hother k hkj] at hjk
        exact absurd hjk.symm (hfresh k hk)
      · exact hkj.symm
      · rcases eq_or_ne k i with rfl | hki
        · rw [hself, hother j hji] at hjk
          exact absurd hjk (hfresh j hj)
        · rw [hother j hji, hother k hki] at hjk
          exact h.names j hj k hk hjk
    · intro m hm name' j
      change P.dbinstHash m name' = some j ↔ j ∈ P.block.instTbl.allocated ∧
        P.moduleInsts.owner j = m ∧ (Function.update P.block.inst i _ j).name = name'
      rw [h.hash m hm]
      rcases eq_or_ne j i with rfl | hji
      · have hm0 := h.lists.owner_ne_zero hm
        rw [howner]
        exact iff_of_false (fun hj => hm0 hj.2.1.symm) fun hj => hm0 hj.2.1.symm
      · rw [hother j hji]

theorem moduleCreate_inv (h : P.Inv) {name : String} (hcreate : P.moduleCreate name = some P') :
    P'.Inv := by
  unfold moduleCreate at hcreate
  split_ifs at hcreate
  · obtain rfl := Option.some.inj hcreate
    exact h
  · obtain ⟨⟨m, T⟩, hT, rfl⟩ := Option.map_eq_some_iff.mp hcreate
    obtain ⟨hok, hm0, hm, hall⟩ := h.moduleTbl.create hT
    have hmem : ∀ k, k ∈ T.allocated ↔ k = m ∨ k ∈ P.moduleTbl.allocated := by
      intro k
      rw [hall, Finset.mem_insert]
    refine ⟨h.instTbl, hok, (hmem _).mpr (Or.inr h.topModule), h.names, ?_, h.unlinked, ?_⟩
    · dsimp only
      rw [hall]
      exact h.lists.insertOwner hm hm0
    · intro k hk name' j
      change Function.update P.dbinstHash m (fun _ => none) k name' = some j ↔
        j ∈ P.block.instTbl.allocated ∧ P.moduleInsts.owner j = k ∧ (P.block.inst j).name = name'
      rcases eq_or_ne k m with rfl | hkm
      · rw [Function.update_self]
        refine iff_of_false (fun hsome => Option.some_ne_none j hsome.symm) ?_
        rintro ⟨-, howner, -⟩
        exact h.lists.owner_ne hm hm0 howner
      · rw [Function.update_of_ne hkm]
        exact h.hash k (((hmem k).mp hk).resolve_left hkm) name' j

/-- What `instDestroy` did to the modules, where it returned. -/
theorem instDestroy_modules {i : Nat} (h : P.instDestroy i = .ok P') :
    P'.moduleTbl = P.moduleTbl ∧ P'.topModule = P.topModule ∧
      P'.moduleInsts.owner = Function.update P.moduleInsts.owner i 0 ∧
      ∀ m, P.moduleInsts.owner i = m → m ≠ 0 → P.moduleInsts.head m = i →
        P'.moduleInsts.head m = P.moduleInsts.next i := by
  unfold instDestroy at h
  cases hdestroy : P.block.instDestroy i with
  | abort => rw [hdestroy] at h; exact absurd h (by simp)
  | error code B => rw [hdestroy] at h; exact absurd h (by simp)
  | ok B =>
      rw [hdestroy] at h
      dsimp only at h
      split_ifs at h with howner
      · obtain rfl := Res.ok.inj h
        refine ⟨rfl, rfl, ?_, fun m hm hm0 => absurd (hm.symm.trans howner) hm0⟩
        rw [← howner, Function.update_eq_self]
      · obtain rfl := Res.ok.inj h
        refine ⟨rfl, rfl, ?_, ?_⟩
        · change ((P.moduleInsts.unlink i _).clearMember i).owner = _
          rw [Lists.owner_clearMember, Lists.owner_unlink, Function.update_idem]
        · rintro m rfl - hhead
          change (P.moduleInsts.unlink i _).head _ = _
          unfold Lists.unlink
          rw [if_pos hhead]
          exact Function.update_self _ _ _

/-- The instances of a module are destroyed one after the other; then none is left in it. -/
theorem destroyInsts_inv {m fuel : Nat} {l : List Nat} (h : P.Inv) (hm : m ∈ P.moduleTbl.allocated)
    (hl : P.moduleInsts.IsList m l) (hfuel : l.length ≤ fuel) :
    (P.destroyInsts (P.moduleInsts.head m) fuel).All Inv ∧
      ∀ P', P.destroyInsts (P.moduleInsts.head m) fuel = .ok P' →
        P'.moduleTbl = P.moduleTbl ∧ P'.topModule = P.topModule ∧ ∀ i, P'.moduleInsts.owner i ≠ m := by
  have hm0 := h.lists.owner_ne_zero hm
  have hempty : l = [] → ∀ i, P.moduleInsts.owner i ≠ m := by
    rintro rfl i howner
    have hi0 : i ≠ 0 := h.lists.member_ne_zero (h.lists.member i (by rw [howner]; exact hm0))
    exact List.not_mem_nil ((hl.mem_iff i).mpr ⟨hi0, howner⟩)
  induction fuel generalizing P l with
  | zero =>
      refine ⟨Res.all_ok h, fun P' h' => ?_⟩
      obtain rfl := Res.ok.inj h'
      exact ⟨rfl, rfl, hempty (List.length_eq_zero_iff.mp (Nat.le_zero.mp hfuel))⟩
  | succ fuel ih =>
      unfold destroyInsts
      split_ifs with hhead
      · refine ⟨Res.all_ok h, fun P' h' => ?_⟩
        obtain rfl := Res.ok.inj h'
        refine ⟨rfl, rfl, hempty ?_⟩
        cases l with
        | nil => rfl
        | cons a l => exact absurd (hl.chain.1.symm.trans hhead) hl.chain.2.1
      · have hinv := instDestroy_inv h (P.moduleInsts.head m)
        have hmem := hl.chain.head_mem hhead
        have howner := ((hl.mem_iff _).mp hmem).2
        cases hdestroy : P.instDestroy (P.moduleInsts.head m) with
        | abort => exact ⟨Res.all_abort, fun P' h' => absurd h' (by simp)⟩
        | error code P₁ =>
            rw [hdestroy] at hinv
            exact ⟨Res.all_error (hinv P₁ rfl), fun P' h' => absurd h' (by simp)⟩
        | ok P₁ =>
            rw [hdestroy] at hinv
            have h₁ := hinv P₁ rfl
            obtain ⟨htbl, htop, howners, hhead₁⟩ := instDestroy_modules hdestroy
            have hm₁ : m ∈ P₁.moduleTbl.allocated := by rw [htbl]; exact hm
            obtain ⟨l₁, hl₁⟩ := h₁.lists.wf m hm0
            have hsub : l₁ ⊆ l.erase (P.moduleInsts.head m) := by
              intro a ha
              obtain ⟨ha0, hao⟩ := (hl₁.mem_iff a).mp ha
              rw [howners] at hao
              have hne : a ≠ P.moduleInsts.head m := by
                rintro rfl
                rw [Function.update_self] at hao
                exact hm0 hao.symm
              rw [Function.update_of_ne hne] at hao
              exact (List.mem_erase_of_ne hne).mpr ((hl.mem_iff a).mpr ⟨ha0, hao⟩)
            have hlen := (hl₁.nodup.subperm hsub).length_le
            rw [List.length_erase_of_mem hmem] at hlen
            have hempty₁ : l₁ = [] → ∀ i, P₁.moduleInsts.owner i ≠ m := by
              rintro rfl i hio
              have hi0 := h₁.lists.member_ne_zero (h₁.lists.member i (by rw [hio]; exact hm0))
              exact List.not_mem_nil ((hl₁.mem_iff i).mpr ⟨hi0, hio⟩)
            obtain ⟨hall, hdone⟩ := ih h₁ hm₁ hl₁ (by omega) hempty₁
            rw [Res.bind_ok, ← hhead₁ m howner hm0 rfl]
            refine ⟨hall, fun P' h' => ?_⟩
            obtain ⟨htbl', htop', hnone⟩ := hdone P' h'
            exact ⟨htbl'.trans htbl, htop'.trans htop, hnone⟩

theorem moduleDestroy_inv (h : P.Inv) {m : Nat} (hm : m ∈ P.moduleTbl.allocated) :
    (P.moduleDestroy m).All Inv := by
  unfold moduleDestroy
  split_ifs with htop hmodInst
  · exact Res.all_error h
  · exact Res.all_error h
  · dsimp only
    obtain ⟨l, hl⟩ := h.lists.wf m (h.lists.owner_ne_zero hm)
    have hlen : l.length ≤ P.block.instTbl.size := by
      obtain ⟨free, hi⟩ := h.instTbl
      have hsub : l.toFinset ⊆ P.block.instTbl.allocated := by
        intro a ha
        obtain ⟨-, howner⟩ := (hl.mem_iff a).mp (List.mem_toFinset.mp ha)
        exact h.lists.member a (by rw [howner]; exact h.lists.owner_ne_zero hm)
      have hcard := Finset.card_le_card hsub
      rw [List.toFinset_card_of_nodup hl.nodup, ← hi.allocCnt] at hcard
      exact hcard
    have h₁ : Inv { P with
        modInstParent := fun child =>
          if P.modInstParent child = m then 0 else P.modInstParent child } :=
      { h with }
    obtain ⟨hall, hdone⟩ := destroyInsts_inv h₁ hm hl hlen
    refine hall.bind fun P₁ hP₁ hinv => ?_
    obtain ⟨htbl, htop₁, hnone⟩ := hdone P₁ hP₁
    cases hT : P₁.moduleTbl.destroy m with
    | none => exact Res.all_abort
    | some T =>
        obtain ⟨hok, -, hallT⟩ := hinv.moduleTbl.destroy hT
        have hmem : ∀ k, k ∈ T.allocated → k ∈ P₁.moduleTbl.allocated := by
          intro k hk
          rw [hallT] at hk
          exact Finset.mem_of_mem_erase hk
        refine Res.all_ok ⟨hinv.instTbl, hok, ?_, hinv.names, ?_, hinv.unlinked,
          fun k hk => hinv.hash k (hmem k hk)⟩
        · change P₁.topModule ∈ T.allocated
          rw [hallT, Finset.mem_erase, htop₁]
          exact ⟨htop, by rw [← htop₁]; exact hinv.topModule⟩
        · change P₁.moduleInsts.Over P₁.block.instTbl.allocated T.allocated
          rw [hallT]
          exact hinv.lists.eraseOwner hnone

theorem perform_inv (h : P.Inv) {op : ModuleOp} (hvalid : P.validOp op = true)
    (hok : P.KeepsLookup op) : (P.perform op).All Inv := by
  cases op <;> simp only [validOp, Bool.and_eq_true, Bool.or_eq_true, beq_iff_eq] at hvalid <;>
    simp only [perform]
  case instCreate master name region physicalOnly parentModule =>
    exact instCreate_inv h (hvalid.imp_right h.moduleTbl.validId_iff.mp)
  case instDestroy i => exact instDestroy_inv h i
  case instRename i name =>
    exact Res.all_ok (instRename_inv h (h.instTbl.validId_iff.mp hvalid) hok)
  case instSetDoNotTouch i v => exact Res.all_ok (h.ofBlock (Block.sameNames_setInst rfl))
  case addInst m i =>
    exact addInst_inv h (h.moduleTbl.validId_iff.mp hvalid.1) (h.instTbl.validId_iff.mp hvalid.2) hok
  case moduleCreate name =>
    cases hcreate : P.moduleCreate name with
    | none => exact Res.all_abort
    | some P' => exact Res.all_ok (moduleCreate_inv h hcreate)
  case moduleDestroy m => exact moduleDestroy_inv h (h.moduleTbl.validId_iff.mp hvalid)
  case modInstCreate parent master =>
    unfold modInstCreate
    split_ifs
    · exact Res.all_ok h
    · exact Res.all_ok { h with }
  case modInstDestroy master => exact Res.all_ok { h with }
  case netlist op =>
    have hsame := @Block.perform_sameInsts P.block op (by simpa using hvalid.1)
    cases hop : P.block.perform op with
    | abort => exact Res.all_abort
    | error code B =>
        rw [hop] at hsame
        exact Res.all_error (h.ofBlock (hsame B rfl).sameNames)
    | ok B =>
        rw [hop] at hsame
        exact Res.all_ok (h.ofBlock (hsame B rfl).sameNames)

theorem step_inv (P : ModuleBlock) (op : ModuleOp) (P' : ModuleBlock) (h : P.Inv)
    (hok : P.KeepsLookup op) (hstep : P.step op = some P') : P'.Inv := by
  unfold step at hstep
  split_ifs at hstep with hvalid
  exact perform_inv h hvalid hok P' hstep

theorem newBlock_inv {shifts : Block.PageShifts} {moduleShift : Nat} {master : MasterId → Master}
    {name : String} (h : newBlock shifts moduleShift master name = some P) : P.Inv := by
  obtain ⟨⟨m, T⟩, hT, rfl⟩ := Option.map_eq_some_iff.mp h
  obtain ⟨hok, -, -, hall⟩ := DbTable.Ok.create ⟨[], DbTable.inv_init moduleShift⟩ hT
  have hinst : (DbTable.init shifts.inst).Ok := ⟨[], DbTable.inv_init _⟩
  have hnone : (DbTable.init shifts.inst).allocated = ∅ := DbTable.allocated_init _
  refine ⟨hinst, hok, ?_, ?_, Lists.over_empty hinst.zero_notMem hok.zero_notMem, fun _ _ => rfl, ?_⟩
  · change m ∈ T.allocated
    rw [hall]
    exact Finset.mem_insert_self _ _
  · intro i hi
    change i ∈ (DbTable.init shifts.inst).allocated at hi
    rw [hnone] at hi
    exact absurd hi (Finset.notMem_empty i)
  · intro m' _ name' j
    refine iff_of_false (Option.some_ne_none j).symm ?_
    rintro ⟨hj, -⟩
    change j ∈ (DbTable.init shifts.inst).allocated at hj
    rw [hnone] at hj
    exact absurd hj (Finset.notMem_empty j)

/-! ### Runs -/

/-- In every state reached from a new block by calls that keep to this, looking an instance up in a
module by name agrees with the list of the module. -/
theorem lookupOk_of_run {shifts : Block.PageShifts} {moduleShift : Nat} {master : MasterId → Master}
    {name : String} {P₀ P : ModuleBlock} {ops : List ModuleOp}
    (hnew : newBlock shifts moduleShift master name = some P₀)
    (hok : Run.Along step KeepsLookup P₀ ops) (hrun : Run.run step P₀ ops = some P) : P.LookupOk :=
  (Run.run_invariant step_inv (newBlock_inv hnew) hok hrun).lookupOk

/-- A new block with small pages, whose masters have no terminals. -/
def smallBlock : Option ModuleBlock :=
  newBlock ⟨1, 1, 1, 1, 1, 1, 1⟩ 2 (fun _ => Block.noTerms) "top"

/-- A module beside the top module, and an instance in the top module. -/
def instInTop : List ModuleOp := [.moduleCreate "m", .instCreate ⟨1, 1⟩ "u" 0 false 0]

/-- Destroyed and made again in the other module, the instance is found there only. -/
theorem lookupOk_of_run_again : ∃ P₀ P, smallBlock = some P₀ ∧
    Run.run step P₀ (instInTop ++ [.instDestroy 1, .instCreate ⟨1, 1⟩ "u" 0 false 2]) = some P ∧
      P.LookupOk := by
  have hall : smallBlock.all (fun P₀ => decide (Run.Along step KeepsLookup P₀
      (instInTop ++ [.instDestroy 1, .instCreate ⟨1, 1⟩ "u" 0 false 2]))) = true := by
    decide +kernel
  have hsome : (smallBlock.bind fun P₀ => Run.run step P₀
      (instInTop ++ [.instDestroy 1, .instCreate ⟨1, 1⟩ "u" 0 false 2])).isSome = true := by
    decide +kernel
  obtain ⟨P, hP⟩ := Option.isSome_iff_exists.mp hsome
  obtain ⟨P₀, hnew, hrun⟩ := Option.bind_eq_some_iff.mp hP
  rw [hnew] at hall
  exact ⟨P₀, P, hnew, hrun, lookupOk_of_run hnew (of_decide_eq_true hall) hrun⟩

/-- The instance is found in the top module under its first name, which it has not or where it is
not. -/
def foundStale (P : ModuleBlock) : Bool :=
  P.findDbInst 1 "u" == some 1 && !decide ((P.block.inst 1).name = "u" ∧ P.moduleInsts.owner 1 = 1) &&
    decide (1 ∈ P.moduleTbl.allocated)

theorem not_lookupOk_of_foundStale (h : P.foundStale = true) : ¬P.LookupOk := by
  simp only [foundStale, Bool.and_eq_true, beq_iff_eq, Bool.not_eq_true', decide_eq_false_iff_not,
    decide_eq_true_eq] at h
  obtain ⟨⟨hfind, hnot⟩, htop⟩ := h
  intro hlookup
  obtain ⟨l, hl, hfinds⟩ := hlookup 1 htop
  obtain ⟨hmem, hname⟩ := (hfinds "u" 1).mp hfind
  exact hnot ⟨hname, ((hl.mem_iff 1).mp hmem).2⟩

theorem reaches_stale {op : ModuleOp} (h : ((smallBlock.bind fun P₀ =>
    Run.run step P₀ (instInTop ++ [op])).any foundStale) = true) :
    ∃ P₀ P, smallBlock = some P₀ ∧ Run.run step P₀ (instInTop ++ [op]) = some P ∧ ¬P.LookupOk := by
  obtain ⟨P, hP, hstale⟩ := (Option.any_eq_true _ _).mp h
  obtain ⟨P₀, hnew, hrun⟩ := Option.bind_eq_some_iff.mp hP
  exact ⟨P₀, P, hnew, hrun, not_lookupOk_of_foundStale hstale⟩

/-- Renamed or moved, it is still found in the top module under its first name. -/
theorem not_lookupOk_stale :
    (∃ P₀ P, smallBlock = some P₀ ∧ Run.run step P₀ (instInTop ++ [.instRename 1 "v"]) = some P ∧
      ¬P.LookupOk) ∧
    ∃ P₀ P, smallBlock = some P₀ ∧ Run.run step P₀ (instInTop ++ [.addInst 2 1]) = some P ∧
      ¬P.LookupOk :=
  ⟨reaches_stale (by decide +kernel), reaches_stale (by decide +kernel)⟩

end ModuleBlock

end OpenRoad.Db
