import OpenRoad.DbInstInvariant
import OpenRoad.DbModPins

/-!
Modules and their instances. Each module has a list of its instances, and beside it a hash that they
are looked up in by name. An instance that is moved to another module stays in the hash of the one it
leaves, and one that is renamed stays there under its old name.
-/

namespace OpenRoad.Db
open LinkedList
open PinBlock (setEntry)

/-- A block with its modules. -/
structure ModuleBlock where
  block : Block
  topModule : Nat
  moduleTbl : DbTable
  moduleName : Nat → String
  /-- the parent of the module instance of each module, null for a module without one -/
  modInstParent : Nat → Nat
  /-- `_module` of the instances with `_module_next`, `_module_prev` and the heads `_insts` -/
  moduleInsts : Lists
  dbinstHash : Nat → String → Option Nat

/-- `t` becomes the first member of the list owned by `n`, as a new member whose `prev` link is null
already where the list is not empty. -/
def linkFirst (s : Lists) (t n : Nat) : Lists where
  head := Function.update s.head n t
  next := Function.update s.next t (s.head n)
  prev := if s.head n = 0 then Function.update s.prev t 0 else Function.update s.prev (s.head n) t
  owner := Function.update s.owner t n

namespace ModuleBlock

variable (P : ModuleBlock)

/-- The module of an instance is set, in its list and in its record. -/
def setModule (i m : Nat) : Block := P.block.setInst i { P.block.inst i with module := m }

/-- `_dbModule::removeInst` -/
def removeInst (m i : Nat) : Res ModuleBlock :=
  if P.moduleInsts.owner i ≠ m then .ok P
  else if (P.block.inst i).flags.dontTouch then .error 371 P
  else .ok { P with
    block := P.setModule i 0
    moduleInsts := (P.moduleInsts.unlink i m).clearMember i }

/-- `dbModule::addInst` -/
def addInst (m i : Nat) : Res ModuleBlock :=
  let inst := P.block.inst i
  let old := P.moduleInsts.owner i
  if inst.flags.physicalOnly then .error 297 P
  else if old = m then .ok P
  else if inst.flags.dontTouch then .error 367 P
  else (if old = 0 then .ok P else P.removeInst old i).bind fun P =>
    .ok { P with
      block := P.setModule i m
      moduleInsts := linkFirst P.moduleInsts i m
      dbinstHash := setEntry P.dbinstHash m inst.name (some i) }

/-- `dbInst::create` -/
def instCreate (master : MasterId) (name : String) (region : Nat) (physicalOnly : Bool)
    (parentModule : Nat) : Res ModuleBlock :=
  match P.block.instCreate master name region physicalOnly parentModule with
  | none => .abort
  | some (i, B) =>
      if i = 0 then .ok P
      else
        let P : ModuleBlock := { P with block := B, moduleInsts := P.moduleInsts.clearMember i }
        if physicalOnly then .ok P
        else P.addInst (if parentModule ≠ 0 then parentModule else P.topModule) i

/-- `dbInst::destroy`: an instance that gets as far as its module may be touched, so that
`removeInst` raises no error. -/
def instDestroy (i : Nat) : Res ModuleBlock :=
  match P.block.instDestroy i with
  | .abort => .abort
  | .error code B => .error code { P with block := B }
  | .ok B =>
      let m := P.moduleInsts.owner i
      if m = 0 then .ok { P with block := B }
      else .ok { P with
        block := B
        moduleInsts := (P.moduleInsts.unlink i m).clearMember i
        dbinstHash := setEntry P.dbinstHash m (P.block.inst i).name none }

/-- `dbInst::rename` -/
def instRename (i : Nat) (name : String) : ModuleBlock :=
  if P.block.hasInst name then P
  else { P with block := P.block.setInst i { P.block.inst i with name := name } }

/-- `dbInst::setDoNotTouch` -/
def instSetDoNotTouch (i : Nat) (v : Bool) : ModuleBlock :=
  let inst := P.block.inst i
  { P with block := P.block.setInst i { inst with flags := { inst.flags with dontTouch := v } } }

/-- Whether a module has this name. -/
def hasModule (name : String) : Bool := ∃ m ∈ P.moduleTbl.allocated, P.moduleName m = name

/-- `dbModule::create` -/
def moduleCreate (name : String) : Option ModuleBlock :=
  if P.hasModule name then some P
  else P.moduleTbl.create.map fun (m, T) => { P with
    moduleTbl := T
    moduleName := Function.update P.moduleName m name
    modInstParent := Function.update P.modInstParent m 0
    moduleInsts := P.moduleInsts.clearOwner m
    dbinstHash := Function.update P.dbinstHash m fun _ => none }

/-- Destroy the instances from `i` on along the list of a module; there are at most `fuel`. -/
def destroyInsts (P : ModuleBlock) (i : Nat) : Nat → Res ModuleBlock
  | 0 => .ok P
  | fuel + 1 =>
      if i = 0 then .ok P
      else (P.instDestroy i).bind fun P' => P'.destroyInsts (P.moduleInsts.next i) fuel

/-- `dbModule::destroy` -/
def moduleDestroy (m : Nat) : Res ModuleBlock :=
  if P.topModule = m then .error 298 P
  else if P.modInstParent m ≠ 0 then .error 389 P
  else
    let P : ModuleBlock := { P with
      modInstParent := fun child => if P.modInstParent child = m then 0 else P.modInstParent child }
    (P.destroyInsts (P.moduleInsts.head m) P.block.instTbl.size).bind fun P =>
      match P.moduleTbl.destroy m with
      | none => .abort
      | some T => .ok { P with moduleTbl := T }

/-- `dbModInst::create` of an instance of `master` whose name is not taken -/
def modInstCreate (parent master : Nat) : ModuleBlock :=
  if P.modInstParent master ≠ 0 then P
  else { P with modInstParent := Function.update P.modInstParent master parent }

/-- `dbModInst::destroy` of the instance of `master` -/
def modInstDestroy (master : Nat) : ModuleBlock :=
  { P with modInstParent := Function.update P.modInstParent master 0 }

/-- `dbModule::findDbInst` -/
def findDbInst (m : Nat) (name : String) : Option Nat := P.dbinstHash m name

/-- A new block, which has its top module. -/
def newBlock (shifts : Block.PageShifts) (moduleShift : Nat) (master : MasterId → Master)
    (name : String) : Option ModuleBlock :=
  (DbTable.init moduleShift).create.map fun (m, T) => {
    block := Block.empty shifts master m
    topModule := m
    moduleTbl := T
    moduleName := Function.update (fun _ => "") m name
    modInstParent := fun _ => 0
    moduleInsts := Lists.empty
    dbinstHash := fun _ _ => none }

end ModuleBlock

/-- The calls that change the instances of modules, and those of the netlist, which they depend on. -/
inductive ModuleOp where
  | instCreate (master : MasterId) (name : String) (region : Nat) (physicalOnly : Bool)
      (parentModule : Nat)
  | instDestroy (i : Nat)
  | instRename (i : Nat) (name : String)
  | instSetDoNotTouch (i : Nat) (v : Bool)
  | addInst (m i : Nat)
  | moduleCreate (name : String)
  | moduleDestroy (m : Nat)
  | modInstCreate (parent master : Nat)
  | modInstDestroy (master : Nat)
  | netlist (op : BlockOp)
  deriving DecidableEq

namespace ModuleBlock

/-- The objects of the call are there. -/
def validOp (P : ModuleBlock) : ModuleOp → Bool
  | .instCreate _ _ _ _ parentModule => parentModule == 0 || P.moduleTbl.validId parentModule
  | .instDestroy i | .instRename i _ | .instSetDoNotTouch i _ => P.block.instTbl.validId i
  | .addInst m i => P.moduleTbl.validId m && P.block.instTbl.validId i
  | .moduleCreate _ => true
  | .moduleDestroy m | .modInstDestroy m => P.moduleTbl.validId m
  | .modInstCreate parent master => P.moduleTbl.validId parent && P.moduleTbl.validId master
  | .netlist op => !Block.isInstOp op && P.block.validOp op

def perform (P : ModuleBlock) : ModuleOp → Res ModuleBlock
  | .instCreate master name region physicalOnly parentModule =>
      P.instCreate master name region physicalOnly parentModule
  | .instDestroy i => P.instDestroy i
  | .instRename i name => .ok (P.instRename i name)
  | .instSetDoNotTouch i v => .ok (P.instSetDoNotTouch i v)
  | .addInst m i => P.addInst m i
  | .moduleCreate name =>
      match P.moduleCreate name with
      | none => .abort
      | some P => .ok P
  | .moduleDestroy m => P.moduleDestroy m
  | .modInstCreate parent master => .ok (P.modInstCreate parent master)
  | .modInstDestroy master => .ok (P.modInstDestroy master)
  | .netlist op =>
      match P.block.perform op with
      | .abort => .abort
      | .error code B => .error code { P with block := B }
      | .ok B => .ok { P with block := B }

/-- A call on objects that are there; an error is caught. -/
def step (P : ModuleBlock) (op : ModuleOp) : Option ModuleBlock :=
  if P.validOp op then (P.perform op).state? else none

end ModuleBlock

end OpenRoad.Db
