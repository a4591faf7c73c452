import OpenRoad.DbConnectUndo
import OpenRoad.DbSwapMaster
import OpenRoad.DbTermLists

/-!
Undoing whole runs of connections and disconnections: which calls are taken back, and that a run of
such calls is.
-/

namespace OpenRoad.Db
open LinkedList

namespace Block

variable {B B' U : Block}

/-! ### Errors of the flat connections -/

/-- Where disconnecting raises an error, it has done nothing. -/
theorem itermDisconnectDbNet_error {code t : Nat} (h : B.itermDisconnectDbNet t = .error code B') :
    B' = B := by
  unfold itermDisconnectDbNet at h
  simp only [] at h
  split_ifs at h <;> exact (Res.error.inj h).2.symm

theorem itermConnect_error {code t n : Nat} (h : B.itermConnect t n = .error code B') : B' = B := by
  unfold itermConnect at h
  split_ifs at h
  · exact (Res.error.inj h).2.symm
  · exact (Res.error.inj h).2.symm
  · exact (Res.error.inj h).2.symm
  · cases hB₁ : B.itermDisconnectDbNet t with
    | ok B₁ => rw [hB₁] at h; exact absurd h (by simp)
    | abort => rw [hB₁] at h; exact absurd h (by simp)
    | error c B₁ =>
        rw [hB₁] at h
        obtain ⟨-, rfl⟩ := Res.error.inj h
        exact itermDisconnectDbNet_error hB₁

theorem itermDisconnect_error {code t : Nat} (h : B.itermDisconnect t = .error code B') : B' = B := by
  unfold itermDisconnect at h
  simp only [] at h
  split_ifs at h
  · exact (Res.error.inj h).2.symm
  · exact (Res.error.inj h).2.symm

theorem btermDisconnectDbNet_error {code b : Nat} (h : B.btermDisconnectDbNet b = .error code B') :
    B' = B := by
  unfold btermDisconnectDbNet at h
  simp only [] at h
  split_ifs at h
  exact (Res.error.inj h).2.symm

theorem btermConnect_error {code b n : Nat} (h : B.btermConnect b n = .error code B') : B' = B := by
  unfold btermConnect at h
  split_ifs at h
  · exact (Res.error.inj h).2.symm
  · cases hB₁ : B.btermDisconnectDbNet b with
    | ok B₁ => rw [hB₁] at h; exact absurd h (by simp)
    | abort => rw [hB₁] at h; exact absurd h (by simp)
    | error c B₁ =>
        rw [hB₁] at h
        obtain ⟨-, rfl⟩ := Res.error.inj h
        exact btermDisconnectDbNet_error hB₁

theorem btermDisconnect_error {code b : Nat} (h : B.btermDisconnect b = .error code B') : B' = B := by
  unfold btermDisconnect at h
  simp only [] at h
  split_ifs at h
  exact (Res.error.inj h).2.symm

/-- Connecting to a hierarchical net raises an error only for an iterm of a `dont_touch` instance. -/
theorem itermConnectMod_error {code t m : Nat} (h : B.itermConnectMod t m = .error code B')  :
    B.modNetITerms.owner t ≠ m ∧ (B.itermInst t).flags.dontTouch = true := by
  unfold itermConnectMod at h
  simp only [] at h
  split_ifs at h with h1 h2
  refine ⟨h1, ?_⟩
  rw [itermDisconnectModNet_eq] at h2
  exact h2

/-! ### The calls that are undone -/

/-- The calls that connect and disconnect terminals, and that create nets. -/
def isConnectOp : BlockOp → Bool
  | .itermConnect _ _ | .itermConnectMod _ _ | .itermConnectBoth _ _ _ | .itermDisconnect _
  | .itermDisconnectDbNet _ | .itermDisconnectModNet _ | .btermConnect _ _ | .btermConnectMod _ _
  | .btermDisconnect _ | .btermDisconnectDbNet _ | .btermDisconnectDbModNet _
  | .modITermConnect _ _ | .modITermDisconnect _ | .modBTermConnect _ _ | .modBTermDisconnect _
  | .netCreate _ _ | .modNetCreate _ _ => true
  | _ => false

/-- The calls that are taken back. Undoing a connection of a bterm takes it off both its nets, or off
none when it is on no flat net; undoing the disconnection of an iterm of a `dont_touch` instance
raises an error; and no action says which net a module terminal was on before it was connected. -/
def ConnectUndone (B : Block) : BlockOp → Prop
  | .itermConnectMod t m => B.modNetITerms.owner t = m ∨ (B.itermInst t).flags.dontTouch = false
  | .itermConnectBoth t n m =>
      (B.modNetITerms.owner t = m ∨ (B.itermInst t).flags.dontTouch = false) ∨
        (n = 0 ∨ B.netITerms.owner t ≠ n)
  | .itermDisconnectModNet t =>
      B.modNetITerms.owner t = 0 ∨ (B.itermInst t).flags.dontTouch = false
  | .btermConnect b n =>
      B.modNetBTerms.owner b = 0 ∨ (B.net n).dontTouch = true ∨
        (B.netBTerms.owner b ≠ 0 ∧ (B.net (B.netBTerms.owner b)).dontTouch = true)
  | .btermConnectMod b m =>
      B.modNetBTerms.owner b = m ∨ (B.netBTerms.owner b = 0 ∧ B.modNetBTerms.owner b ≠ 0)
  | .modITermConnect t m => B.modNetModITerms.owner t = m ∨ B.modNetModITerms.owner t = 0
  | .modBTermConnect t m => B.modNetModBTerms.owner t = m ∨ B.modNetModBTerms.owner t = 0
  | _ => True

instance (B : Block) (op : BlockOp) : Decidable (B.ConnectUndone op) := by
  apply BlockOp.casesOn (motive := fun op => Decidable (B.ConnectUndone op)) op <;> intros <;>
    dsimp only [ConnectUndone] <;> infer_instance

theorem ConnectUndone.keepsLists {op : BlockOp} (hop : isConnectOp op = true)
    (h : B.ConnectUndone op) : B.KeepsLists op := by
  cases op <;> first | exact h | trivial

theorem ConnectUndone.both {t n m : Nat} (h : B.ConnectUndone (.itermConnectBoth t n m))
    {B₁ : Block} (hB₁ : B.itermConnect t n = .ok B₁) :
    B.modNetITerms.owner t = m ∨ (B.itermInst t).flags.dontTouch = false :=
  h.elim id fun hnew => Or.inr (itermConnect_dontTouch hB₁ hnew)

theorem undoes_itermConnectBoth (hB : B.Ok) {t n m : Nat} (ht : t ∈ B.itermTbl.allocated)
    (hn : n ≠ 0 → n ∈ B.netTbl.allocated) (hm : m ∈ B.modNetTbl.allocated)
    (hok : B.ConnectUndone (.itermConnectBoth t n m)) (h : B.itermConnectBoth t n m = .ok B') :
    Undoes B B' := by
  unfold itermConnectBoth at h
  cases hB₁ : B.itermConnect t n with
  | error code B₁ => rw [hB₁] at h; exact absurd h (by simp)
  | abort => rw [hB₁] at h; exact absurd h (by simp)
  | ok B₁ =>
      rw [hB₁, Res.bind_ok] at h
      have hok₁ := hok.both hB₁
      have hundoes := undoes_itermConnect hB ht hn hB₁
      have hlists := itermConnect_listsOk hB.toListsOk ht hn B₁ (by rw [hB₁]; rfl)
      rw [itermConnect_ok hB₁] at hundoes hlists h
      exact hundoes.trans (undoes_itermConnectMod (hB.of_lists hlists) hm hok₁ h)

theorem itermConnectBoth_error {code t n m : Nat} (hok : B.ConnectUndone (.itermConnectBoth t n m))
    (h : B.itermConnectBoth t n m = .error code B') : B' = B := by
  unfold itermConnectBoth at h
  cases hB₁ : B.itermConnect t n with
  | abort => rw [hB₁] at h; exact absurd h (by simp)
  | error c B₁ =>
      rw [hB₁] at h
      obtain ⟨-, rfl⟩ := Res.error.inj h
      exact itermConnect_error hB₁
  | ok B₁ =>
      rw [hB₁, Res.bind_ok, itermConnect_ok hB₁] at h
      obtain ⟨hne, hdont⟩ := itermConnectMod_error h
      rcases hok.both hB₁ with heq | hdont'
      · exact absurd heq hne
      · exact absurd (hdont'.symm.trans hdont) Bool.false_ne_true

theorem ofCreate_eq_ok {σ : Type} {r : Option (Nat × σ)} {s : σ} (h : Res.ofCreate r = .ok s) :
    ∃ id, r = some (id, s) := by
  cases r with
  | none => exact absurd h (by simp [Res.ofCreate])
  | some q => exact ⟨q.1, by rw [← Res.ok.inj h]⟩

theorem perform_connect_undoes (hB : B.Ok) {op : BlockOp} (hop : isConnectOp op = true)
    (hok : B.ConnectUndone op) (hvalid : B.validOp op = true) (h : B.perform op = .ok B') :
    Undoes B B' := by
  have hnull : ∀ {n : Nat}, (n == 0 || B.netTbl.validId n) = true →
      n ≠ 0 → n ∈ B.netTbl.allocated := by
    intro n hn h0
    rw [Bool.or_eq_true, beq_iff_eq] at hn
    exact hB.netTbl.validId_iff.mp (hn.resolve_left h0)
  cases op <;> first | exact absurd hop Bool.false_ne_true | skip
  all_goals simp only [validOp, Bool.and_eq_true] at hvalid
  all_goals simp only [perform] at h
  case itermConnect t n =>
    exact undoes_itermConnect hB (hB.itermTbl.validId_iff.mp hvalid.1) (hnull hvalid.2) h
  case itermConnectMod t m =>
    exact undoes_itermConnectMod hB (hB.modNetTbl.validId_iff.mp hvalid.2) hok h
  case itermConnectBoth t n m =>
    exact undoes_itermConnectBoth hB (hB.itermTbl.validId_iff.mp hvalid.1.1) (hnull hvalid.1.2)
      (hB.modNetTbl.validId_iff.mp hvalid.2) hok h
  case itermDisconnect t => exact undoes_itermDisconnect hB h
  case itermDisconnectDbNet t => exact undoes_itermDisconnectDbNet hB h
  case itermDisconnectModNet t =>
    obtain rfl := Res.ok.inj h
    exact undoes_itermDisconnectModNet hB hok
  case btermConnect b n =>
    -- where a net is `dont_touch`, the call raises an error
    have hmod : B.modNetBTerms.owner b = 0 := by
      rcases hok with hmod | hnet | ⟨h0, hnet⟩
      · exact hmod
      · simp [btermConnect, hnet] at h
      · simp only [btermConnect, btermDisconnectDbNet, if_neg h0, if_pos hnet] at h
        split_ifs at h
        exact absurd h (by simp)
    exact undoes_btermConnect hB (hB.netTbl.validId_iff.mp hvalid.2) hmod h
  case btermConnectMod b m =>
    obtain rfl := Res.ok.inj h
    exact undoes_btermConnectMod hB (hB.btermTbl.validId_iff.mp hvalid.1)
      (hB.modNetTbl.validId_iff.mp hvalid.2) hok
  case btermDisconnect b => exact undoes_btermDisconnect hB h
  case btermDisconnectDbNet b => exact undoes_btermDisconnectDbNet hB h
  case btermDisconnectDbModNet b =>
    obtain rfl := Res.ok.inj h
    exact undoes_btermDisconnectModNet hB b
  case modITermConnect t m =>
    obtain rfl := Res.ok.inj h
    exact undoes_modITermConnect hB (hB.modNetTbl.validId_iff.mp hvalid.2) hok
  case modITermDisconnect t =>
    obtain rfl := Res.ok.inj h
    exact undoes_modITermDisconnect hB t
  case modBTermConnect t m =>
    obtain rfl := Res.ok.inj h
    exact undoes_modBTermConnect hB (hB.modNetTbl.validId_iff.mp hvalid.2) hok
  case modBTermDisconnect t =>
    obtain rfl := Res.ok.inj h
    exact undoes_modBTermDisconnect hB t
  case netCreate name skip =>
    obtain ⟨n, hcreate⟩ := ofCreate_eq_ok h
    exact undoes_netCreate hB hcreate
  case modNetCreate parent name =>
    obtain ⟨m, hcreate⟩ := ofCreate_eq_ok h
    exact undoes_modNetCreate hB hcreate

/-- A call that raises an error has changed nothing. -/
theorem perform_connect_error {op : BlockOp} (hop : isConnectOp op = true)
    (hok : B.ConnectUndone op) {code : Nat} (h : B.perform op = .error code B') : B' = B := by
  cases op <;> first | exact absurd hop Bool.false_ne_true | skip
  all_goals simp only [perform] at h
  case itermConnect t n => exact itermConnect_error h
  case itermConnectMod t m =>
    obtain ⟨hne, hdont⟩ := itermConnectMod_error h
    exact absurd ((hok.resolve_left hne).symm.trans hdont) Bool.false_ne_true
  case itermConnectBoth t n m => exact itermConnectBoth_error hok h
  case itermDisconnect t => exact itermDisconnect_error h
  case itermDisconnectDbNet t => exact itermDisconnectDbNet_error h
  case btermConnect b n => exact btermConnect_error h
  case btermDisconnect b => exact btermDisconnect_error h
  case btermDisconnectDbNet b => exact btermDisconnectDbNet_error h
  case netCreate name skip =>
    cases hr : B.netCreate name skip <;> rw [hr] at h <;> exact absurd h (by simp [Res.ofCreate])
  case modNetCreate parent name =>
    cases hr : B.modNetCreate parent name <;> rw [hr] at h <;>
      exact absurd h (by simp [Res.ofCreate])
  all_goals exact absurd h (by simp)

theorem step_connect_undoes (B : Block) (op : BlockOp) (B' : Block) (hB : B.Ok)
    (hok : isConnectOp op = true ∧ B.ConnectUndone op) (hstep : B.step op = some B') :
    Undoes B B' ∧ B'.Ok := by
  obtain ⟨hop, hok⟩ := hok
  have hlists := step_listsOk B op B' hB.toListsOk (hok.keepsLists hop) hstep
  unfold step at hstep
  split_ifs at hstep with hvalid
  refine ⟨?_, SameInsts.ok (perform_sameInsts ?_ B' hstep) hB hlists⟩
  · cases hperform : B.perform op with
    | ok B₁ =>
        rw [hperform] at hstep
        obtain rfl := Option.some.inj hstep
        exact perform_connect_undoes hB hop hok hvalid hperform
    | error code B₁ =>
        rw [hperform] at hstep
        obtain rfl := Option.some.inj hstep
        rw [perform_connect_error hop hok hperform]
        exact Undoes.refl B
    | abort => rw [hperform] at hstep; exact absurd hstep (by simp [Res.state?])
  · cases op <;> first | rfl | exact absurd hop Bool.false_ne_true

theorem run_connect_undoes (hB : B.Ok) {ops : List BlockOp}
    (hops : ∀ op ∈ ops, isConnectOp op = true) (hok : Run.Along step ConnectUndone B ops)
    (hrun : Run.run step B ops = some B') : Undoes B B' ∧ B'.Ok :=
  Run.run_related Undoes.refl (fun _ _ _ => Undoes.trans) step_connect_undoes hB
    (hok.imp fun op hop _ h => ⟨hops op hop, h⟩) hrun

/-! ### The nets afterwards -/

/-- Each terminal is on the net it was on, and each net has the same terminals. -/
structure SameMembers (s s' : Lists) (live nets : Finset Nat) : Prop where
  owner : ∀ t ∈ live, s'.owner t = s.owner t
  list : ∀ n ∈ nets, ∃ l l', ListOf s live n l ∧ ListOf s' live n l' ∧ ∀ t, t ∈ l' ↔ t ∈ l

theorem sameMembers_of_owner {s s' : Lists} {live nets : Finset Nat} (h : s.Over live nets)
    (h' : s'.Over live nets) (howner : s'.owner = s.owner) : SameMembers s s' live nets := by
  refine ⟨fun t _ => congrFun howner t, fun n hn => ?_⟩
  obtain ⟨l, hl⟩ := listOf_of_over h hn
  obtain ⟨l', hl'⟩ := listOf_of_over h' hn
  refine ⟨l, l', hl, hl', fun t => ?_⟩
  rw [hl.mem_iff, hl'.mem_iff, howner]

/-- The terminals and nets of `B`, on each other as in `B`. -/
structure SameNets (B U : Block) : Prop where
  iterms : U.itermTbl.allocated = B.itermTbl.allocated
  bterms : U.btermTbl.allocated = B.btermTbl.allocated
  modITerms : U.modITermTbl.allocated = B.modITermTbl.allocated
  modBTerms : U.modBTermTbl.allocated = B.modBTermTbl.allocated
  nets : U.netTbl.allocated = B.netTbl.allocated
  modNets : U.modNetTbl.allocated = B.modNetTbl.allocated
  netITerms : SameMembers B.netITerms U.netITerms B.itermTbl.allocated B.netTbl.allocated
  modNetITerms : SameMembers B.modNetITerms U.modNetITerms B.itermTbl.allocated
    B.modNetTbl.allocated
  netBTerms : SameMembers B.netBTerms U.netBTerms B.btermTbl.allocated B.netTbl.allocated
  modNetBTerms : SameMembers B.modNetBTerms U.modNetBTerms B.btermTbl.allocated
    B.modNetTbl.allocated
  modNetModITerms : SameMembers B.modNetModITerms U.modNetModITerms B.modITermTbl.allocated
    B.modNetTbl.allocated
  modNetModBTerms : SameMembers B.modNetModBTerms U.modNetModBTerms B.modBTermTbl.allocated
    B.modNetTbl.allocated

theorem Restored.sameNets (hB : B.Ok) (h : Restored B U) : SameNets B U := by
  have hover : ∀ {s s' : Lists} {members owners members' owners' : Finset Nat},
      s.Over members owners → s'.Over members' owners' → members' = members → owners' = owners →
      s'.owner = s.owner → SameMembers s s' members owners := by
    rintro s s' members owners _ _ hs hs' rfl rfl howner
    exact sameMembers_of_owner hs hs' howner
  have hl := h.lists
  exact {
    iterms := h.itermTbl.allocated
    bterms := h.btermTbl.allocated
    modITerms := h.modITermTbl.allocated
    modBTerms := h.modBTermTbl.allocated
    nets := h.netTbl.allocated
    modNets := h.modNetTbl.allocated
    netITerms := hover hB.netITerms hl.netITerms h.itermTbl.allocated h.netTbl.allocated h.netITerms
    modNetITerms := hover hB.modNetITerms hl.modNetITerms h.itermTbl.allocated
      h.modNetTbl.allocated h.modNetITerms
    netBTerms := hover hB.netBTerms hl.netBTerms h.btermTbl.allocated h.netTbl.allocated h.netBTerms
    modNetBTerms := hover hB.modNetBTerms hl.modNetBTerms h.btermTbl.allocated
      h.modNetTbl.allocated h.modNetBTerms
    modNetModITerms := hover hB.modNetModITerms hl.modNetModITerms h.modITermTbl.allocated
      h.modNetTbl.allocated h.modNetModITerms
    modNetModBTerms := hover hB.modNetModBTerms hl.modNetModBTerms h.modBTermTbl.allocated
      h.modNetTbl.allocated h.modNetModBTerms }

/-- After a run of calls that are taken back, `undoEco` leaves each terminal on the nets it was on
before `beginEco`. -/
theorem undoEco_sameNets (B B' : Block) (ops : List BlockOp) (hB : B.Ok)
    (hops : ∀ op ∈ ops, isConnectOp op = true)
    (hok : Run.Along step ConnectUndone B.beginEco ops)
    (hrun : Run.run step B.beginEco ops = some B') :
    ∃ U, B'.undoEco = .ok U ∧ SameNets B U := by
  obtain ⟨hundoes, hok'⟩ := run_connect_undoes hB.beginEco hops hok hrun
  obtain ⟨U, hU, hR⟩ := hundoes.undoEco hok'
  exact ⟨U, hU, hR.sameNets hB⟩

/-- The calls that make a port on a flat net, next to a hierarchical net. -/
def portOnNet : List BlockOp :=
  [.netCreate "net" false, .modNetCreate 1 "modnet", .btermCreate 1 "port"]

/-- The port moved to another net and back, undone. -/
theorem undoEco_sameNets_port : ∃ B B' U,
    Run.run stepOk (empty blockShifts (fun _ => noTerms) 1) portOnNet = some B ∧
    Run.run step B.beginEco
      [.netCreate "other" false, .btermConnect 1 2, .btermDisconnect 1, .modNetCreate 1 "m"] =
        some B' ∧
    B'.undoEco = .ok U ∧ SameNets B U := by
  have hruns : ((Run.run stepOk (empty blockShifts (fun _ => noTerms) 1) portOnNet).bind fun B =>
      if Run.Along step ConnectUndone B.beginEco
        [.netCreate "other" false, .btermConnect 1 2, .btermDisconnect 1, .modNetCreate 1 "m"]
      then Run.run step B.beginEco
        [.netCreate "other" false, .btermConnect 1 2, .btermDisconnect 1, .modNetCreate 1 "m"]
      else none).isSome = true := by decide +kernel
  obtain ⟨B', hB'⟩ := Option.isSome_iff_exists.mp hruns
  obtain ⟨B, hB, hif⟩ := Option.bind_eq_some_iff.mp hB'
  split_ifs at hif with hok
  obtain ⟨U, hU, hsame⟩ := undoEco_sameNets B B' _ (ok_of_run (by decide +kernel) hB) (by decide)
    hok hif
  exact ⟨B, B', U, hB, hif, hU, hsame⟩

/-- Connecting the port to the hierarchical net as well and undoing this takes it off the flat net. -/
theorem not_undoEco_sameNets_btermConnectMod : ∃ B B',
    Run.run stepOk (empty blockShifts (fun _ => noTerms) 1) portOnNet = some B ∧ B.Ok ∧
    Run.run step B.beginEco [.btermConnectMod 1 1] = some B' ∧
    ¬ ∃ U, B'.undoEco = .ok U ∧ SameNets B U := by
  have hruns : ((Run.run stepOk (empty blockShifts (fun _ => noTerms) 1) portOnNet).bind fun B =>
      (Run.run step B.beginEco [.btermConnectMod 1 1]).map fun B' =>
        (decide (1 ∈ B.btermTbl.allocated), B.netBTerms.owner 1,
          B'.undoEco.ok?.map fun U => U.netBTerms.owner 1)) = some (true, 1, some 0) := by
    decide +kernel
  obtain ⟨B, hB, hmap⟩ := Option.bind_eq_some_iff.mp hruns
  obtain ⟨B', hB', heq⟩ := Option.map_eq_some_iff.mp hmap
  obtain ⟨hlive, hnet, hundo⟩ : 1 ∈ B.btermTbl.allocated ∧ B.netBTerms.owner 1 = 1 ∧
      (B'.undoEco.ok?.map fun U => U.netBTerms.owner 1) = some 0 := by simpa using heq
  refine ⟨B, B', hB, ok_of_run (by decide +kernel) hB, hB', ?_⟩
  rintro ⟨U, hU, hsame⟩
  have howner := hsame.netBTerms.owner 1 hlive
  rw [hU, Res.ok?, Option.map_some] at hundo
  rw [Option.some.inj hundo, hnet] at howner
  exact absurd howner (by decide)

end Block

end OpenRoad.Db

/-!
Connections that raise an error. The checks of `connect` come before it changes anything, also those
of the disconnection it starts with, but for the hierarchical net of an iterm: that one is set before
the instance is checked.
-/

namespace OpenRoad.Db
open LinkedList

/-- A call that connects a terminal to a net. -/
inductive Connection where
  /-- `dbITerm::connect(dbNet*)` -/
  | iterm (t n : Nat)
  /-- `dbITerm::connect(dbModNet*)` -/
  | itermMod (t m : Nat)
  /-- `dbBTerm::connect(dbNet*)` -/
  | bterm (b n : Nat)

namespace Block

/-- Make the call. -/
def connect (B : Block) : Connection → Res Block
  | .iterm t n => B.itermConnect t n
  | .itermMod t m => B.itermConnectMod t m
  | .bterm b n => B.btermConnect b n

/-- The block is left as it was wherever the call raises an error. -/
def LeavesAlone (B : Block) (r : Res Block) : Prop := ∀ code B', r = .error code B' → B' = B

/-- The error of an iterm of an instance that must not be touched leaves the new net in the iterm. -/
theorem itermConnectMod_rejected {B : Block} {t m : Nat} (howner : B.modNetITerms.owner t ≠ m)
    (hinst : (B.itermInst t).flags.dontTouch = true) :
    ∃ B', B.itermConnectMod t m = .error 397 B' ∧ B'.modNetITerms.owner t = m := by
  have hinst' : ((B.itermDisconnectModNet t).itermInst t).flags.dontTouch = true := by
    rw [itermDisconnectModNet_eq]
    exact hinst
  unfold itermConnectMod
  rw [if_neg howner]
  dsimp only
  rw [if_pos hinst']
  exact ⟨_, rfl, Function.update_self _ _ _⟩

/-! ### Rejected connections -/

/-- The call connects an iterm of an instance that must not be touched to a hierarchical net it is not
on already. -/
def RejectedLate (B : Block) : Connection → Prop
  | .itermMod t m => B.modNetITerms.owner t ≠ m ∧ (B.itermInst t).flags.dontTouch = true
  | _ => False

/-- In every block: a connection that is rejected changes nothing, exactly where it is not one that is
checked late. -/
theorem connect_leavesAlone_iff (B : Block) (c : Connection) :
    B.LeavesAlone (B.connect c) ↔ ¬B.RejectedLate c := by
  cases c with
  | iterm t n => exact iff_of_true (fun _ _ h => itermConnect_error h) not_false
  | bterm b n => exact iff_of_true (fun _ _ h => btermConnect_error h) not_false
  | itermMod t m =>
      constructor
      · rintro hleaves ⟨howner, hinst⟩
        obtain ⟨B', herror, howner'⟩ := itermConnectMod_rejected howner hinst
        rw [hleaves 397 B' herror] at howner'
        exact howner howner'
      · intro hnot _ _ herror
        exact absurd (itermConnectMod_error herror) hnot

/-- A master with one terminal. -/
def onePin : Master := ⟨0, 0, ⟨0, 0⟩, ["A"], List.nodup_singleton _⟩

/-- The calls that make an instance, a hierarchical net, and set the instance not to be touched. -/
def untouchable : List BlockOp :=
  [.instCreate ⟨1, 1⟩ "u" 0 false 1, .modNetCreate 1 "n", .instSetDoNotTouch 1 true]

/-- The iterm that is not connected claims to be on the net; pages of four objects are enough here. -/
theorem not_connect_leavesAlone : ∃ B,
    Run.run step (empty ⟨2, 2, 2, 2, 2, 2, 2⟩ (fun _ => onePin) 1) untouchable = some B ∧
      ¬B.LeavesAlone (B.connect (.itermMod 1 1)) := by
  have hstate : (Run.run step (empty ⟨2, 2, 2, 2, 2, 2, 2⟩ (fun _ => onePin) 1) untouchable).map
      (fun B => (B.modNetITerms.owner 1, (B.itermInst 1).flags.dontTouch)) = some (0, true) := by
    decide +kernel
  obtain ⟨B, hrun, heq⟩ := Option.map_eq_some_iff.mp hstate
  have howner : B.modNetITerms.owner 1 = 0 := congrArg Prod.fst heq
  have hinst : (B.itermInst 1).flags.dontTouch = true := congrArg Prod.snd heq
  have hne : B.modNetITerms.owner 1 ≠ 1 := by
    rw [howner]
    decide
  obtain ⟨B', herror, howner'⟩ := itermConnectMod_rejected hne hinst
  refine ⟨B, hrun, fun hleaves => hne ?_⟩
  rw [← hleaves 397 B' herror]
  exact howner'

end Block

end OpenRoad.Db
