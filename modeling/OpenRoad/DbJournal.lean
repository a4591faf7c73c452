import OpenRoad.DbBlock
import OpenRoad.Run
import Mathlib.Data.List.Sort

/-!
Creating, destroying and placing instances (`dbInst`), and creating and destroying nets (`dbNet`,
`dbModNet`).
-/

namespace OpenRoad.Db
open LinkedList

namespace Block

/-! ### `dbInst::create` and `dbInst::destroy` -/

/-- Whether an instance has this name. -/
def hasInst (B : Block) (name : String) : Bool := ∃ i ∈ B.instTbl.allocated, (B.inst i).name = name

/-- The next `n` iterms of an instance, from the terminal with order id `k` on. -/
def createITerms (B : Block) (i : Nat) (k : Nat) : Nat → Option (List Nat × Block)
  | 0 => some ([], B)
  | n + 1 => do
      let (t, T) ← B.itermTbl.create
      let B := { B with
        itermTbl := T
        iterm := Function.update B.iterm t ⟨i, k⟩
        netITerms := B.netITerms.clearMember t
        modNetITerms := B.modNetITerms.clearMember t }
      let (ts, B) ← createITerms B i (k + 1) n
      some (t :: ts, B)

/-- The module a new instance is added to; null for a physical only one. -/
def createModule (B : Block) (physicalOnly : Bool) (parentModule : Nat) : Nat :=
  if physicalOnly then 0 else if parentModule ≠ 0 then parentModule else B.topModule

/-- The record of a new instance. -/
def newInst (B : Block) (m : MasterId) (name : String) (region : Nat) (physicalOnly : Bool)
    (parentModule : Nat) (ts : List Nat) : Inst where
  flags := ⟨.R0, .NONE, physicalOnly, false⟩
  name := name
  x := 0
  y := 0
  master := m
  bbox := Rect.init 0 0 (B.master m).width (B.master m).height
  region := region
  module := B.createModule physicalOnly parentModule
  group := 0
  hierarchy := false
  iterms := ts

/-- `dbInst::create`: the new instance, or null where the name is taken. -/
def instCreate (B : Block) (m : MasterId) (name : String) (region : Nat) (physicalOnly : Bool)
    (parentModule : Nat) : Option (Nat × Block) :=
  if B.hasInst name then some (0, B)
  else
    B.instTbl.create.bind fun (i, T) =>
      (({ B with instTbl := T }.record (.createInst m.lib m.id name i)).createITerms i 0
        (B.master m).mterms.length).map fun (r : List Nat × Block) =>
          (i, r.2.setInst i (r.2.newInst m name region physicalOnly parentModule r.1))

/-- Disconnect and destroy the iterms of an instance, which are given the last one first. -/
def destroyITerms (B : Block) (i : Nat) : List Nat → Res Block
  | [] => .ok B
  | t :: ts => (B.itermDisconnect t).bind fun B =>
      match B.itermTbl.destroy t with
      | none => .abort
      | some T =>
          let inst := B.inst i
          destroyITerms ({ B with itermTbl := T }.setInst i
            { inst with iterms := inst.iterms.dropLast }) i ts

/-- `dbInst::destroy` -/
def instDestroy (B : Block) (i : Nat) : Res Block :=
  if (B.inst i).flags.dontTouch then .error 362 B
  else (B.destroyITerms i (B.inst i).iterms.reverse).bind fun B =>
    let inst := B.inst i
    let B := B.record (.deleteInst inst.master.lib inst.master.id inst.name i inst.flags inst.x
      inst.y inst.group inst.module inst.region)
    match B.instTbl.destroy i with
    | none => .abort
    | some T => .ok { B with instTbl := T }

/-! ### Placement -/

/-- The box of an instance as `setInstBBox` computes it. -/
def instBox (B : Block) (inst : Inst) : Rect :=
  Transform.applyRect ⟨inst.flags.orient, ⟨inst.x, inst.y⟩⟩
    (B.master inst.master).getPlacementBoundary

/-- `_dbInst::setInstBBox` -/
def setInstBBox (B : Block) (i : Nat) : Block :=
  let inst := B.inst i
  B.setInst i { inst with bbox := B.instBox inst }

/-- `dbInst::setOrigin` -/
def instSetOrigin (B : Block) (i : Nat) (x y : Int) : Res Block :=
  let inst := B.inst i
  if inst.flags.status.isPlaced ∧ inst.x = x ∧ inst.y = y then .ok B
  else if inst.flags.status.isFixed then .error 359 B
  else .ok (((B.setInst i { inst with x := x, y := y }).setInstBBox i).record
    (.updateInstOrigin i inst.x inst.y x y))

/-- The placement boundary of the master in the orientation of the instance. -/
def orientedBoundary (B : Block) (inst : Inst) : Rect :=
  Transform.applyRect ⟨inst.flags.orient, ⟨0, 0⟩⟩ (B.master inst.master).getPlacementBoundary

/-- `dbInst::setLocation` -/
def instSetLocation (B : Block) (i : Nat) (x y : Int) : Res Block :=
  let bbox := B.orientedBoundary (B.inst i)
  B.instSetOrigin i (x - bbox.xMin) (y - bbox.yMin)

/-- `dbInst::setOrient` -/
def instSetOrient (B : Block) (i : Nat) (orient : Orient) : Res Block :=
  let inst := B.inst i
  if orient = inst.flags.orient then .ok B
  else if inst.flags.status.isFixed then .error 360 B
  else
    let flags := { inst.flags with orient := orient }
    .ok (((B.setInst i { inst with flags := flags }).setInstBBox i).record
      (.updateInstFlags i inst.flags flags))

/-- `dbInst::setPlacementStatus` -/
def instSetPlacementStatus (B : Block) (i : Nat) (status : PlacementStatus) : Block :=
  let inst := B.inst i
  if inst.flags.status = status then B
  else
    let flags := { inst.flags with status := status }
    (B.setInst i { inst with flags := flags }).record (.updateInstFlags i inst.flags flags)

/-! ### `dbInst::swapMaster` -/

end Block

/-- The terminals of a master with their order ids, sorted by name. -/
def Master.sortMTerms (m : Master) : List (String × Nat) :=
  m.mterms.zipIdx.mergeSort fun a b => decide (a.1 ≤ b.1)

/-- The order ids in the new master of the terminals of the old one, if the terminals are
equivalent. -/
def idxMap (old new : Master) : Option (Nat → Nat) :=
  if old.mterms.length ≠ new.mterms.length then none
  else if old.sortMTerms.map Prod.fst = new.sortMTerms.map Prod.fst then
    some fun idx =>
      match (old.sortMTerms.zip new.sortMTerms).find? fun p => p.1.2 == idx with
      | some p => p.2.2
      | none => 0
  else none

namespace Block

/-- The iterms of the list are bound to other terminals. -/
def rebind (B : Block) (ts : List Nat) (idx : Nat → Nat) : Block :=
  { B with iterm := fun t =>
      if t ∈ ts then { B.iterm t with mtermIdx := idx (B.iterm t).mtermIdx } else B.iterm t }

/-- The iterms in the order of their terminals. -/
def sortITerms (B : Block) (ts : List Nat) : List Nat :=
  ts.mergeSort fun t t' => decide ((B.iterm t).mtermIdx ≤ (B.iterm t').mtermIdx)

/-- `dbInst::swapMaster`: the action is journaled before the terminals are compared. -/
def instSwapMaster (B : Block) (i : Nat) (m : MasterId) : Res Block :=
  let inst := B.inst i
  if inst.flags.dontTouch then .error 368 B
  else if inst.hierarchy then .ok B
  else
    let B := B.record (.swapInst i inst.master.lib inst.master.id m.lib m.id)
    match idxMap (B.master inst.master) (B.master m) with
    | none => .ok B
    | some idx =>
        let B := (B.setInst i { inst with master := m }).setInstBBox i
        let B := B.rebind inst.iterms idx
        .ok (B.setInst i { B.inst i with iterms := B.sortITerms inst.iterms })

/-! ### Nets -/

/-- Whether a net has this name. -/
def hasNet (B : Block) (name : String) : Bool := ∃ n ∈ B.netTbl.allocated, (B.net n).name = name

/-- `dbNet::create`: the new net, or null where the name is taken. -/
def netCreate (B : Block) (name : String) (skipExistingCheck : Bool) : Option (Nat × Block) :=
  if ¬ skipExistingCheck ∧ B.hasNet name then some (0, B)
  else do
    let (n, T) ← B.netTbl.create
    some (n, { B.record (.createNet name n) with
      netTbl := T
      net := Function.update B.net n ⟨name, false⟩
      netITerms := B.netITerms.clearOwner n
      netBTerms := B.netBTerms.clearOwner n })

/-- Disconnect the iterms from `t` on along the list of a net; there are at most `fuel`. -/
def disconnectITerms (B : Block) (t : Nat) : Nat → Res Block
  | 0 => .ok B
  | fuel + 1 =>
      if t = 0 then .ok B
      else (B.itermDisconnect t).bind fun B' => B'.disconnectITerms (B.netITerms.next t) fuel

/-- Destroy the bterms from `b` on along the list of a net; there are at most `fuel`. -/
def destroyBTerms (B : Block) (b : Nat) : Nat → Res Block
  | 0 => .ok B
  | fuel + 1 =>
      if b = 0 then .ok B
      else (B.btermDestroy b).bind fun B' => B'.destroyBTerms (B.netBTerms.next b) fuel

/-- `dbNet::destroy` -/
def netDestroy (B : Block) (n : Nat) : Res Block :=
  if (B.net n).dontTouch then .error 364 B
  else (B.disconnectITerms (B.netITerms.head n) B.itermTbl.size).bind fun B =>
    (B.destroyBTerms (B.netBTerms.head n) B.btermTbl.size).bind fun B =>
      let B := B.record (.deleteNet (B.net n).name n (B.net n).dontTouch)
      match B.netTbl.destroy n with
      | none => .abort
      | some T => .ok { B with netTbl := T }

/-- `dbModNet::create` -/
def modNetCreate (B : Block) (parent : Nat) (name : String) : Option (Nat × Block) := do
  let (m, T) ← B.modNetTbl.create
  some (m, { B.record (.createModNet name m parent) with
    modNetTbl := T
    modNet := Function.update B.modNet m ⟨name, parent⟩
    modNetITerms := B.modNetITerms.clearOwner m
    modNetBTerms := B.modNetBTerms.clearOwner m
    modNetModITerms := B.modNetModITerms.clearOwner m
    modNetModBTerms := B.modNetModBTerms.clearOwner m })

/-- `dbModNet::destroy` leaves the terminals of the net alone. -/
def modNetDestroy (B : Block) (m : Nat) : Res Block :=
  let B := B.record (.deleteModNet (B.modNet m).name m (B.modNet m).parent)
  match B.modNetTbl.destroy m with
  | none => .abort
  | some T => .ok { B with modNetTbl := T }

end Block

end OpenRoad.Db

/-!
The editing operations of a block as one step function, and `dbJournal::undo`, which takes the
journaled actions back, the last one first.
-/

namespace OpenRoad.Db
open LinkedList

namespace Block

/-! ### `dbJournal::undo` -/

/-- `dbModule::addInst` -/
def moduleAddInst (B : Block) (module i : Nat) : Res Block :=
  let inst := B.inst i
  if inst.flags.physicalOnly then .error 297 B
  else if inst.module = module then .ok B
  else if inst.flags.dontTouch then .error 367 B
  else .ok (B.setInst i { inst with module := module })

/-- The instance is created anew; its flags are restored before its location. -/
def undoDeleteInst (B : Block) (m : MasterId) (name : String) (flags : InstFlags) (x y : Int)
    (group module region : Nat) : Res Block :=
  match B.instCreate m name 0 false 0 with
  | none => .abort
  | some (i, B) =>
      if i = 0 then .abort
      else
        let B := B.setInst i { B.inst i with flags := flags }
        (B.instSetLocation i x y).bind fun B =>
          let B := if group ≠ 0 then B.setInst i { B.inst i with group := group } else B
          (if module ≠ 0 then B.moduleAddInst module i else .ok B).bind fun B =>
            .ok (if region ≠ 0 then B.setInst i { B.inst i with region := region } else B)

/-- Changing the orientation flag requires updating the cached bbox. -/
def undoUpdateInstFlags (B : Block) (i : Nat) (prev new : InstFlags) : Block :=
  let B := B.setInst i { B.inst i with flags := prev }
  if prev.orient ≠ new.orient then B.setInstBBox i else B

def undoDeleteNet (B : Block) (name : String) (dontTouch : Bool) : Res Block :=
  match B.netCreate name false with
  | none => .abort
  | some (n, B) =>
      if n = 0 then .abort
      else .ok { B with net := Function.update B.net n { B.net n with dontTouch := dontTouch } }

/-- The nets to disconnect are those whose ids are not null. -/
def undoConnectITerm (B : Block) (t n m : Nat) : Res Block :=
  (if n ≠ 0 then B.itermDisconnectDbNet t else .ok B).bind fun B =>
    .ok (if m ≠ 0 then B.itermDisconnectModNet t else B)

def undoDisconnectITerm (B : Block) (t n m : Nat) : Res Block :=
  (if n ≠ 0 then B.itermConnect t n else .ok B).bind fun B =>
    if m ≠ 0 then B.itermConnectMod t m else .ok B

def undoDisconnectBTerm (B : Block) (b n m : Nat) : Res Block :=
  (if n ≠ 0 then B.btermConnect b n else .ok B).bind fun B =>
    .ok (if m ≠ 0 then B.btermConnectMod b m else B)

/-- Take one action back. There is no support for bterms that were created or destroyed. -/
def undoRecord (B : Block) : Record → Res Block
  | .createInst _ _ _ i => B.instDestroy i
  | .deleteInst lib m name _ flags x y group module region =>
      B.undoDeleteInst ⟨lib, m⟩ name flags x y group module region
  | .swapInst i oldLib oldMaster _ _ => B.instSwapMaster i ⟨oldLib, oldMaster⟩
  | .updateInstFlags i prev new => .ok (B.undoUpdateInstFlags i prev new)
  | .updateInstOrigin i prevX prevY _ _ => B.instSetOrigin i prevX prevY
  | .createNet _ n => B.netDestroy n
  | .deleteNet name _ dontTouch => B.undoDeleteNet name dontTouch
  | .createModNet _ m _ => B.modNetDestroy m
  | .deleteModNet name _ parent =>
      match B.modNetCreate parent name with
      | none => .abort
      | some (_, B) => .ok B
  | .createBTerm _ _ => .abort
  | .deleteBTerm _ => .abort
  | .connectITerm t n m => B.undoConnectITerm t n m
  | .disconnectITerm t n m => B.undoDisconnectITerm t n m
  | .connectBTerm b _ _ => B.btermDisconnect b
  | .disconnectBTerm b n m => B.undoDisconnectBTerm b n m
  | .connectModITerm t _ => .ok (B.modITermDisconnect t)
  | .disconnectModITerm t m => .ok (if m ≠ 0 then B.modITermConnect t m else B)
  | .connectModBTerm t _ => .ok (B.modBTermDisconnect t)
  | .disconnectModBTerm t m => .ok (if m ≠ 0 then B.modBTermConnect t m else B)

/-- `dbJournal::undo`, on the actions with the last one first. -/
def undo (B : Block) : List Record → Res Block
  | [] => .ok B
  | r :: rs => (B.undoRecord r).bind fun B => B.undo rs

/-- `endEco` and then `undoEco`: undoing is not journaled itself. -/
def undoEco (B : Block) : Res Block :=
  match B.journal with
  | none => .ok B
  | some rs => { B with journal := none }.undo rs

/-! ### Editing operations -/

end Block

/-- The calls that edit the netlist and the placement. -/
inductive BlockOp where
  | itermConnect (t n : Nat)
  | itermConnectMod (t m : Nat)
  | itermConnectBoth (t n m : Nat)
  | itermDisconnect (t : Nat)
  | itermDisconnectDbNet (t : Nat)
  | itermDisconnectModNet (t : Nat)
  | btermConnect (b n : Nat)
  | btermConnectMod (b m : Nat)
  | btermDisconnect (b : Nat)
  | btermDisconnectDbNet (b : Nat)
  | btermDisconnectDbModNet (b : Nat)
  | modITermConnect (t m : Nat)
  | modITermDisconnect (t : Nat)
  | modBTermConnect (t m : Nat)
  | modBTermDisconnect (t : Nat)
  | netCreate (name : String) (skipExistingCheck : Bool)
  | modNetCreate (parent : Nat) (name : String)
  | btermCreate (n : Nat) (name : String)
  | btermDestroy (b : Nat)
  | instCreate (m : MasterId) (name : String) (region : Nat) (physicalOnly : Bool)
      (parentModule : Nat)
  | instDestroy (i : Nat)
  | instSetOrigin (i : Nat) (x y : Int)
  | instSetLocation (i : Nat) (x y : Int)
  | instSetOrient (i : Nat) (orient : Orient)
  | instSetPlacementStatus (i : Nat) (status : PlacementStatus)
  | instSwapMaster (i : Nat) (m : MasterId)
  | instSetDoNotTouch (i : Nat) (v : Bool)
  | netSetDoNotTouch (n : Nat) (v : Bool)
  deriving DecidableEq

namespace Block

/-- Whether the ids of an operation are those of objects. -/
def validOp (B : Block) : BlockOp → Bool
  | .itermConnect t n => B.itermTbl.validId t && (n == 0 || B.netTbl.validId n)
  | .itermConnectMod t m => B.itermTbl.validId t && B.modNetTbl.validId m
  | .itermConnectBoth t n m =>
      B.itermTbl.validId t && (n == 0 || B.netTbl.validId n) && B.modNetTbl.validId m
  | .itermDisconnect t | .itermDisconnectDbNet t | .itermDisconnectModNet t => B.itermTbl.validId t
  | .btermConnect b n => B.btermTbl.validId b && B.netTbl.validId n
  | .btermConnectMod b m => B.btermTbl.validId b && B.modNetTbl.validId m
  | .btermDisconnect b | .btermDisconnectDbNet b | .btermDisconnectDbModNet b
  | .btermDestroy b => B.btermTbl.validId b
  | .modITermConnect t m => B.modITermTbl.validId t && B.modNetTbl.validId m
  | .modITermDisconnect t => B.modITermTbl.validId t
  | .modBTermConnect t m => B.modBTermTbl.validId t && B.modNetTbl.validId m
  | .modBTermDisconnect t => B.modBTermTbl.validId t
  | .netCreate _ _ | .modNetCreate _ _ | .instCreate _ _ _ _ _ => true
  | .btermCreate n _ | .netSetDoNotTouch n _ => B.netTbl.validId n
  | .instDestroy i | .instSetOrigin i _ _ | .instSetLocation i _ _ | .instSetOrient i _
  | .instSetPlacementStatus i _ | .instSwapMaster i _ | .instSetDoNotTouch i _ =>
      B.instTbl.validId i

def perform (B : Block) : BlockOp → Res Block
  | .itermConnect t n => B.itermConnect t n
  | .itermConnectMod t m => B.itermConnectMod t m
  | .itermConnectBoth t n m => B.itermConnectBoth t n m
  | .itermDisconnect t => B.itermDisconnect t
  | .itermDisconnectDbNet t => B.itermDisconnectDbNet t
  | .itermDisconnectModNet t => .ok (B.itermDisconnectModNet t)
  | .btermConnect b n => B.btermConnect b n
  | .btermConnectMod b m => .ok (B.btermConnectMod b m)
  | .btermDisconnect b => B.btermDisconnect b
  | .btermDisconnectDbNet b => B.btermDisconnectDbNet b
  | .btermDisconnectDbModNet b => .ok (B.btermDisconnectModNet b)
  | .modITermConnect t m => .ok (B.modITermConnect t m)
  | .modITermDisconnect t => .ok (B.modITermDisconnect t)
  | .modBTermConnect t m => .ok (B.modBTermConnect t m)
  | .modBTermDisconnect t => .ok (B.modBTermDisconnect t)
  | .netCreate name skip => Res.ofCreate (B.netCreate name skip)
  | .modNetCreate parent name => Res.ofCreate (B.modNetCreate parent name)
  | .btermCreate n name => B.btermCreate n name
  | .btermDestroy b => B.btermDestroy b
  | .instCreate m name region physicalOnly parentModule =>
      Res.ofCreate (B.instCreate m name region physicalOnly parentModule)
  | .instDestroy i => B.instDestroy i
  | .instSetOrigin i x y => B.instSetOrigin i x y
  | .instSetLocation i x y => B.instSetLocation i x y
  | .instSetOrient i orient => B.instSetOrient i orient
  | .instSetPlacementStatus i status => .ok (B.instSetPlacementStatus i status)
  | .instSwapMaster i m => B.instSwapMaster i m
  | .instSetDoNotTouch i v =>
      .ok (B.setInst i { B.inst i with flags := { (B.inst i).flags with dontTouch := v } })
  | .netSetDoNotTouch n v =>
      .ok { B with net := Function.update B.net n { B.net n with dontTouch := v } }

/-- A call whose errors are caught; it needs the objects it is given. -/
def step (B : Block) (op : BlockOp) : Option Block :=
  if B.validOp op then (B.perform op).state? else none

/-- A call that raises no error. -/
def stepOk (B : Block) (op : BlockOp) : Option Block :=
  if B.validOp op then (B.perform op).ok? else none

/-- The page sizes of the tables, as the numbers of bits of an offset. -/
structure PageShifts where
  inst : Nat
  net : Nat
  modNet : Nat
  iterm : Nat
  bterm : Nat
  modITerm : Nat
  modBTerm : Nat

/-- The page sizes the constructor of `_dbBlock` passes on. -/
def blockShifts : PageShifts := ⟨7, 7, 7, 10, 7, 7, 7⟩

/-- A new block: no objects but its top module. -/
def empty (shifts : PageShifts) (master : MasterId → Master) (topModule : Nat) : Block where
  master := master
  topModule := topModule
  instTbl := DbTable.init shifts.inst
  netTbl := DbTable.init shifts.net
  modNetTbl := DbTable.init shifts.modNet
  itermTbl := DbTable.init shifts.iterm
  btermTbl := DbTable.init shifts.bterm
  modITermTbl := DbTable.init shifts.modITerm
  modBTermTbl := DbTable.init shifts.modBTerm
  inst := fun _ => ⟨⟨.R0, .NONE, false, false⟩, "", 0, 0, ⟨0, 0⟩, ⟨0, 0, 0, 0⟩, 0, 0, 0, false, []⟩
  net := fun _ => ⟨"", false⟩
  modNet := fun _ => ⟨"", 0⟩
  iterm := fun _ => ⟨0, 0⟩
  btermName := fun _ => ""
  netITerms := Lists.empty
  modNetITerms := Lists.empty
  netBTerms := Lists.empty
  modNetBTerms := Lists.empty
  modNetModITerms := Lists.empty
  modNetModBTerms := Lists.empty
  journal := none

end Block

end OpenRoad.Db
