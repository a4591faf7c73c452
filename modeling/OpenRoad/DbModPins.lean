import OpenRoad.DbTermLists

/-!
Hierarchical pins: the pins of module instances (`dbModITerm`) and the ports of modules
(`dbModBTerm`) come and go, as do the hierarchical nets that they are put on. Their lists stay
consistent as long as no pin is put on a net while it is on another, and no net is destroyed under
its pins.
-/

namespace OpenRoad.Db
open LinkedList

/-- A block with what its hierarchical pins are looked up by: their names, the lists and the hashes of
the module instances and the modules they belong to, and which pin matches which port. -/
structure PinBlock where
  block : Block
  modITermName : Nat → String
  modBTermName : Nat → String
  /-- `_parent` of the moditerms with `_next_entry`, `_prev_entry` and the heads `_moditerms` -/
  modInstModITerms : Lists
  /-- `_parent` of the modbterms with `_next_entry`, `_prev_entry` and the heads `_modbterms` -/
  moduleModBTerms : Lists
  /-- `_parent` of the modnets with `_next_entry`, `_prev_entry` and the heads `_modnets` -/
  moduleModNets : Lists
  modITermHash : Nat → String → Option Nat
  modBTermHash : Nat → String → Option Nat
  modNetHash : Nat → String → Option Nat
  /-- `_child_modbterm` of the moditerms -/
  childModBTerm : Nat → Nat
  /-- `_parent_moditerm` of the modbterms -/
  parentModITerm : Nat → Nat

namespace PinBlock

variable (P : PinBlock)

/-- A hash of an owner with the entry of a name changed. -/
def setEntry (hash : Nat → String → Option Nat) (owner : Nat) (name : String) (entry : Option Nat) :
    Nat → String → Option Nat :=
  Function.update hash owner (Function.update (hash owner) name entry)

/-- `dbModITerm::create` -/
def modITermCreate (parent : Nat) (name : String) (modBTerm : Nat) : Option PinBlock := do
  let (t, T) ← P.block.modITermTbl.create
  some { P with
    block := { P.block with
      modITermTbl := T
      modNetModITerms := P.block.modNetModITerms.clearMember t }
    modITermName := Function.update P.modITermName t name
    modInstModITerms := P.modInstModITerms.push t parent
    modITermHash := setEntry P.modITermHash parent name (some t)
    childModBTerm := Function.update P.childModBTerm t modBTerm
    parentModITerm :=
      if modBTerm = 0 then P.parentModITerm else Function.update P.parentModITerm modBTerm t }

/-- `dbModITerm::destroy` does not look at the net of the pin. -/
def modITermDestroy (t : Nat) : Option PinBlock := do
  let T ← P.block.modITermTbl.destroy t
  let parent := P.modInstModITerms.owner t
  some { P with
    block := { P.block with modITermTbl := T }
    modInstModITerms := (P.modInstModITerms.unlinkByPrev t parent).clearMember t
    modITermHash := setEntry P.modITermHash parent (P.modITermName t) none }

/-- `dbModBTerm::create` returns the port of that name, if there is one. -/
def modBTermCreate (module : Nat) (name : String) : Option PinBlock :=
  if (P.modBTermHash module name).isSome then some P
  else do
    let (t, T) ← P.block.modBTermTbl.create
    some { P with
      block := { P.block with
        modBTermTbl := T
        modNetModBTerms := P.block.modNetModBTerms.clearMember t }
      modBTermName := Function.update P.modBTermName t name
      moduleModBTerms := P.moduleModBTerms.push t module
      modBTermHash := setEntry P.modBTermHash module name (some t)
      parentModITerm := Function.update P.parentModITerm t 0 }

/-- `dbModBTerm::destroy` does not look at the net of the port. -/
def modBTermDestroy (t : Nat) : Option PinBlock := do
  let T ← P.block.modBTermTbl.destroy t
  let module := P.moduleModBTerms.owner t
  some { P with
    block := { P.block with modBTermTbl := T }
    moduleModBTerms := (P.moduleModBTerms.unlinkByPrev t module).clearMember t
    modBTermHash := setEntry P.modBTermHash module (P.modBTermName t) none }

/-- `dbModNet::create` -/
def modNetCreate (module : Nat) (name : String) : Option PinBlock := do
  let (m, B) ← P.block.modNetCreate module name
  some { P with
    block := B
    moduleModNets := P.moduleModNets.push m module
    modNetHash := setEntry P.modNetHash module name (some m) }

/-- `dbModNet::destroy` leaves the pins on the net alone. -/
def modNetDestroy (m : Nat) : Option PinBlock := do
  let B ← (P.block.modNetDestroy m).ok?
  let module := P.moduleModNets.owner m
  some { P with
    block := B
    moduleModNets := (P.moduleModNets.unlinkByPrev m module).clearMember m
    modNetHash := setEntry P.modNetHash module (P.block.modNet m).name none }

/-- A new block without pins. -/
def empty (shifts : Block.PageShifts) (master : MasterId → Master) (topModule : Nat) : PinBlock where
  block := Block.empty shifts master topModule
  modITermName := fun _ => ""
  modBTermName := fun _ => ""
  modInstModITerms := Lists.empty
  moduleModBTerms := Lists.empty
  moduleModNets := Lists.empty
  modITermHash := fun _ _ => none
  modBTermHash := fun _ _ => none
  modNetHash := fun _ _ => none
  childModBTerm := fun _ => 0
  parentModITerm := fun _ => 0

end PinBlock

/-- The calls that make, connect and destroy hierarchical pins and nets. -/
inductive PinOp where
  | modITermCreate (parent : Nat) (name : String) (modBTerm : Nat)
  | modITermDestroy (t : Nat)
  | modITermConnect (t m : Nat)
  | modITermDisconnect (t : Nat)
  | modBTermCreate (module : Nat) (name : String)
  | modBTermDestroy (t : Nat)
  | modBTermConnect (t m : Nat)
  | modBTermDisconnect (t : Nat)
  | modNetCreate (module : Nat) (name : String)
  | modNetDestroy (m : Nat)
  deriving DecidableEq

namespace PinBlock

/-- The objects of the call are there, and a pin that is destroyed has been disconnected. -/
def validOp (P : PinBlock) : PinOp → Bool
  | .modITermCreate _ _ modBTerm => modBTerm == 0 || P.block.modBTermTbl.validId modBTerm
  | .modITermDestroy t => P.block.modITermTbl.validId t && P.block.modNetModITerms.owner t == 0
  | .modITermConnect t m => P.block.modITermTbl.validId t && P.block.modNetTbl.validId m
  | .modITermDisconnect t => P.block.modITermTbl.validId t
  | .modBTermCreate _ _ => true
  | .modBTermDestroy t => P.block.modBTermTbl.validId t && P.block.modNetModBTerms.owner t == 0
  | .modBTermConnect t m => P.block.modBTermTbl.validId t && P.block.modNetTbl.validId m
  | .modBTermDisconnect t => P.block.modBTermTbl.validId t
  | .modNetCreate _ _ => true
  | .modNetDestroy m => P.block.modNetTbl.validId m

def perform (P : PinBlock) : PinOp → Option PinBlock
  | .modITermCreate parent name modBTerm => P.modITermCreate parent name modBTerm
  | .modITermDestroy t => P.modITermDestroy t
  | .modITermConnect t m => some { P with block := P.block.modITermConnect t m }
  | .modITermDisconnect t => some { P with block := P.block.modITermDisconnect t }
  | .modBTermCreate module name => P.modBTermCreate module name
  | .modBTermDestroy t => P.modBTermDestroy t
  | .modBTermConnect t m => some { P with block := P.block.modBTermConnect t m }
  | .modBTermDisconnect t => some { P with block := P.block.modBTermDisconnect t }
  | .modNetCreate module name => P.modNetCreate module name
  | .modNetDestroy m => P.modNetDestroy m

/-- A call on objects that are there; `none` when it is not, or an assertion fails. -/
def step (P : PinBlock) (op : PinOp) : Option PinBlock :=
  if P.validOp op then P.perform op else none

/-! ### The lists of the nets -/

/-- The lists of moditerms and modbterms of each hierarchical net are in order. -/
structure PinListsOk (P : PinBlock) : Prop where
  modITerms : ∀ m ∈ P.block.modNetTbl.allocated,
    ∃ l, ListOf P.block.modNetModITerms P.block.modITermTbl.allocated m l
  modBTerms : ∀ m ∈ P.block.modNetTbl.allocated,
    ∃ l, ListOf P.block.modNetModBTerms P.block.modBTermTbl.allocated m l

/-- The tables are in order, and the lists hold live pins, on the lists of live nets. -/
structure Ok (P : PinBlock) : Prop where
  modNetTbl : P.block.modNetTbl.Ok
  modITermTbl : P.block.modITermTbl.Ok
  modBTermTbl : P.block.modBTermTbl.Ok
  modITerms : P.block.modNetModITerms.Over P.block.modITermTbl.allocated P.block.modNetTbl.allocated
  modBTerms : P.block.modNetModBTerms.Over P.block.modBTermTbl.allocated P.block.modNetTbl.allocated

/-- A pin is connected only from no net, or to the net that it is on, and a net is destroyed only when
no pin names it. -/
def KeepsPinLists (P : PinBlock) : PinOp → Prop
  | .modITermConnect t m =>
      P.block.modNetModITerms.owner t = m ∨ P.block.modNetModITerms.owner t = 0
  | .modBTermConnect t m =>
      P.block.modNetModBTerms.owner t = m ∨ P.block.modNetModBTerms.owner t = 0
  | .modNetDestroy m =>
      (∀ t ∈ P.block.modITermTbl.allocated, P.block.modNetModITerms.owner t ≠ m) ∧
        ∀ t ∈ P.block.modBTermTbl.allocated, P.block.modNetModBTerms.owner t ≠ m
  | _ => True

instance (P : PinBlock) (op : PinOp) : Decidable (P.KeepsPinLists op) := by
  cases op <;> unfold KeepsPinLists <;> infer_instance

variable {P P' : PinBlock}

theorem Ok.pinListsOk (h : P.Ok) : P.PinListsOk where
  modITerms _ hm := listOf_of_over h.modITerms hm
  modBTerms _ hm := listOf_of_over h.modBTerms hm

theorem empty_ok (shifts : Block.PageShifts) (master : MasterId → Master) (topModule : Nat) :
    (empty shifts master topModule).Ok := by
  have h := Block.empty_listsOk shifts master topModule
  exact ⟨h.modNetTbl, h.modITermTbl, h.modBTermTbl, h.modNetModITerms, h.modNetModBTerms⟩

/-! ### Steps -/

theorem modITermCreate_ok (h : P.Ok) {parent modBTerm : Nat} {name : String}
    (hcreate : P.modITermCreate parent name modBTerm = some P') : P'.Ok := by
  unfold modITermCreate at hcreate
  obtain ⟨⟨t, T⟩, ht, hsome⟩ := Option.bind_eq_some_iff.mp hcreate
  obtain rfl := Option.some.inj hsome
  obtain ⟨hT, ht0, hnew, hall⟩ := h.modITermTbl.create ht
  refine { h with modITermTbl := hT, modITerms := ?_ }
  have hlists := h.modITerms.insertMember hnew ht0
  rw [← hall] at hlists
  exact hlists

theorem modITermDestroy_ok (h : P.Ok) {t : Nat} (howner : P.block.modNetModITerms.owner t = 0)
    (hdestroy : P.modITermDestroy t = some P') : P'.Ok := by
  unfold modITermDestroy at hdestroy
  obtain ⟨T, ht, hsome⟩ := Option.bind_eq_some_iff.mp hdestroy
  obtain rfl := Option.some.inj hsome
  obtain ⟨hT, -, hall⟩ := h.modITermTbl.destroy ht
  refine { h with modITermTbl := hT, modITerms := ?_ }
  have hlists := h.modITerms.eraseMember howner
  rw [← hall] at hlists
  exact hlists

theorem modITermConnect_ok (h : P.Ok) {t m : Nat} (ht : t ∈ P.block.modITermTbl.allocated)
    (hm : m ∈ P.block.modNetTbl.allocated)
    (hok : P.block.modNetModITerms.owner t = m ∨ P.block.modNetModITerms.owner t = 0) :
    Ok { P with block := P.block.modITermConnect t m } := by
  unfold Block.modITermConnect
  split
  · exact h
  · next hne => exact { h with modITerms := h.modITerms.push ht hm (hok.resolve_left hne) }

theorem modITermDisconnect_ok (h : P.Ok) (t : Nat) :
    Ok { P with block := P.block.modITermDisconnect t } := by
  unfold Block.modITermDisconnect
  dsimp only
  split
  · exact h
  · next hne => exact { h with modITerms := h.modITerms.unlinkByPrev rfl hne }

theorem modBTermCreate_ok (h : P.Ok) {module : Nat} {name : String}
    (hcreate : P.modBTermCreate module name = some P') : P'.Ok := by
  unfold modBTermCreate at hcreate
  split at hcreate
  · obtain rfl := Option.some.inj hcreate
    exact h
  · obtain ⟨⟨t, T⟩, ht, hsome⟩ := Option.bind_eq_some_iff.mp hcreate
    obtain rfl := Option.some.inj hsome
    obtain ⟨hT, ht0, hnew, hall⟩ := h.modBTermTbl.create ht
    refine { h with modBTermTbl := hT, modBTerms := ?_ }
    have hlists := h.modBTerms.insertMember hnew ht0
    rw [← hall] at hlists
    exact hlists

theorem modBTermDestroy_ok (h : P.Ok) {t : Nat} (howner : P.block.modNetModBTerms.owner t = 0)
    (hdestroy : P.modBTermDestroy t = some P') : P'.Ok := by
  unfold modBTermDestroy at hdestroy
  obtain ⟨T, ht, hsome⟩ := Option.bind_eq_some_iff.mp hdestroy
  obtain rfl := Option.some.inj hsome
  obtain ⟨hT, -, hall⟩ := h.modBTermTbl.destroy ht
  refine { h with modBTermTbl := hT, modBTerms := ?_ }
  have hlists := h.modBTerms.eraseMember howner
  rw [← hall] at hlists
  exact hlists

theorem modBTermConnect_ok (h : P.Ok) {t m : Nat} (ht : t ∈ P.block.modBTermTbl.allocated)
    (hm : m ∈ P.block.modNetTbl.allocated)
    (hok : P.block.modNetModBTerms.owner t = m ∨ P.block.modNetModBTerms.owner t = 0) :
    Ok { P with block := P.block.modBTermConnect t m } := by
  unfold Block.modBTermConnect
  split
  · exact h
  · next hne => exact { h with modBTerms := h.modBTerms.push ht hm (hok.resolve_left hne) }

theorem modBTermDisconnect_ok (h : P.Ok) (t : Nat) :
    Ok { P with block := P.block.modBTermDisconnect t } := by
  unfold Block.modBTermDisconnect
  dsimp only
  split
  · exact h
  · next hne =>
    exact { h with
      modBTerms := (h.modBTerms.unlinkByPrev rfl hne).clearMember (Function.update_self _ _ _) }

theorem modNetCreate_ok (h : P.Ok) {module : Nat} {name : String}
    (hcreate : P.modNetCreate module name = some P') : P'.Ok := by
  unfold modNetCreate Block.modNetCreate at hcreate
  obtain ⟨⟨m, B⟩, hblock, hsome⟩ := Option.bind_eq_some_iff.mp hcreate
  obtain ⟨⟨m', T⟩, hm, heq⟩ := Option.bind_eq_some_iff.mp hblock
  obtain rfl := Option.some.inj hsome
  obtain ⟨rfl, rfl⟩ := Prod.ext_iff.mp (Option.some.inj heq)
  obtain ⟨hT, hm0, hnew, hall⟩ := h.modNetTbl.create hm
  have hlists : ∀ {s : Lists} {members : Finset Nat}, s.Over members P.block.modNetTbl.allocated →
      (s.clearOwner m').Over members T.allocated := by
    intro s members hs
    rw [hall]
    exact hs.insertOwner hnew hm0
  exact ⟨hT, h.modITermTbl, h.modBTermTbl, hlists h.modITerms, hlists h.modBTerms⟩

theorem modNetDestroy_ok (h : P.Ok) {m : Nat}
    (hnone : (∀ t ∈ P.block.modITermTbl.allocated, P.block.modNetModITerms.owner t ≠ m) ∧
      ∀ t ∈ P.block.modBTermTbl.allocated, P.block.modNetModBTerms.owner t ≠ m)
    (hdestroy : P.modNetDestroy m = some P') : P'.Ok := by
  unfold modNetDestroy Block.modNetDestroy at hdestroy
  obtain ⟨B, hblock, hsome⟩ := Option.bind_eq_some_iff.mp hdestroy
  obtain rfl := Option.some.inj hsome
  dsimp only at hblock
  cases hm : P.block.modNetTbl.destroy m with
  | none =>
      have habort : (P.block.record (.deleteModNet (P.block.modNet m).name m
          (P.block.modNet m).parent)).modNetTbl.destroy m = none := hm
      rw [habort] at hblock
      exact absurd hblock (Option.some_ne_none B).symm
  | some T =>
      have hok : (P.block.record (.deleteModNet (P.block.modNet m).name m
          (P.block.modNet m).parent)).modNetTbl.destroy m = some T := hm
      rw [hok] at hblock
      obtain rfl := Option.some.inj hblock
      obtain ⟨hT, hlive, hall⟩ := h.modNetTbl.destroy hm
      have hlists : ∀ {s : Lists} {members : Finset Nat},
          s.Over members P.block.modNetTbl.allocated → (∀ t ∈ members, s.owner t ≠ m) →
          s.Over members T.allocated := by
        intro s members hs hfree
        rw [hall]
        refine hs.eraseOwner fun t howner => ?_
        have hm0 : m ≠ 0 := hs.owner_ne_zero hlive
        exact hfree t (hs.member t (by rw [howner]; exact hm0)) howner
      exact ⟨hT, h.modITermTbl, h.modBTermTbl, hlists h.modITerms hnone.1,
        hlists h.modBTerms hnone.2⟩

theorem step_ok (P : PinBlock) (op : PinOp) (P' : PinBlock) (h : P.Ok) (hok : P.KeepsPinLists op)
    (hstep : P.step op = some P') : P'.Ok := by
  unfold step at hstep
  split at hstep
  · next hvalid =>
    cases op <;> simp only [validOp, Bool.and_eq_true, beq_iff_eq] at hvalid <;>
      simp only [perform] at hstep
    case modITermCreate parent name modBTerm => exact modITermCreate_ok h hstep
    case modITermDestroy t => exact modITermDestroy_ok h hvalid.2 hstep
    case modITermConnect t m =>
      obtain rfl := Option.some.inj hstep
      exact modITermConnect_ok h (h.modITermTbl.validId_iff.mp hvalid.1)
        (h.modNetTbl.validId_iff.mp hvalid.2) hok
    case modITermDisconnect t =>
      obtain rfl := Option.some.inj hstep
      exact modITermDisconnect_ok h t
    case modBTermCreate module name => exact modBTermCreate_ok h hstep
    case modBTermDestroy t => exact modBTermDestroy_ok h hvalid.2 hstep
    case modBTermConnect t m =>
      obtain rfl := Option.some.inj hstep
      exact modBTermConnect_ok h (h.modBTermTbl.validId_iff.mp hvalid.1)
        (h.modNetTbl.validId_iff.mp hvalid.2) hok
    case modBTermDisconnect t =>
      obtain rfl := Option.some.inj hstep
      exact modBTermDisconnect_ok h t
    case modNetCreate module name => exact modNetCreate_ok h hstep
    case modNetDestroy m => exact modNetDestroy_ok h hok hstep
  · exact absurd hstep (Option.some_ne_none P').symm

/-- In every state reached from a new block by calls that keep to this, the lists are in order. -/
theorem pinListsOk_of_run (shifts : Block.PageShifts) (master : MasterId → Master) (topModule : Nat)
    (ops : List PinOp) (P : PinBlock)
    (hok : Run.Along step KeepsPinLists (empty shifts master topModule) ops)
    (hrun : Run.run step (empty shifts master topModule) ops = some P) : P.PinListsOk :=
  (Run.run_invariant step_ok (empty_ok shifts master topModule) hok hrun).pinListsOk

/-- Two pins of a module instance, put on the first of two nets. -/
def twoPinsOnNet : List PinOp :=
  [.modNetCreate 1 "n1", .modNetCreate 1 "n2", .modITermCreate 1 "a" 0, .modITermCreate 1 "b" 0,
    .modITermConnect 1 1, .modITermConnect 2 1]

/-- Disconnected first, the second pin can be put on the other net. -/
theorem pinListsOk_of_run_moved :
    ∃ P, Run.run step (empty Block.blockShifts (fun _ => Block.noTerms) 1)
      (twoPinsOnNet ++ [.modITermDisconnect 2, .modITermConnect 2 2]) = some P ∧ P.PinListsOk := by
  cases hrun : Run.run step (empty Block.blockShifts (fun _ => Block.noTerms) 1)
      (twoPinsOnNet ++ [.modITermDisconnect 2, .modITermConnect 2 2]) with
  | none => exact absurd hrun (by decide +kernel)
  | some P =>
      exact ⟨P, rfl, pinListsOk_of_run Block.blockShifts _ 1 _ P (by decide +kernel) hrun⟩

/-- Connected straight away, it stays at the head of the list of the first net. -/
theorem not_pinListsOk_moved :
    ∃ P, Run.run step (empty Block.blockShifts (fun _ => Block.noTerms) 1)
      (twoPinsOnNet ++ [.modITermConnect 2 2]) = some P ∧ ¬P.PinListsOk := by
  have hhead : (Run.run step (empty Block.blockShifts (fun _ => Block.noTerms) 1)
      (twoPinsOnNet ++ [.modITermConnect 2 2])).map (fun P => (P.block.modNetModITerms.head 1,
        P.block.modNetModITerms.owner 2, decide (1 ∈ P.block.modNetTbl.allocated))) =
      some (2, 2, true) := by decide +kernel
  obtain ⟨P, hrun, heq⟩ := Option.map_eq_some_iff.mp hhead
  obtain ⟨hhead, howner, hnet⟩ : P.block.modNetModITerms.head 1 = 2 ∧
      P.block.modNetModITerms.owner 2 = 2 ∧ 1 ∈ P.block.modNetTbl.allocated := by simpa using heq
  refine ⟨P, hrun, fun h => ?_⟩
  obtain ⟨l, hl⟩ := h.modITerms 1 hnet
  have hmem := hl.chain.head_mem (by rw [hhead]; decide)
  rw [hhead] at hmem
  have hone := ((hl.mem_iff 2).mp hmem).2
  rw [howner] at hone
  exact absurd hone (by decide)

end PinBlock

end OpenRoad.Db
