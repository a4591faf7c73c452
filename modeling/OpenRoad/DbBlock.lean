import OpenRoad.DbGeometry
import OpenRoad.DbTableInvariant

/-!
The part of a `dbBlock` that holds its netlist and the placement of its instances: object tables,
the records of the objects, the lists of terminals of the nets, and the journal. A reference to an
object is its id; `0` is null.
-/

namespace OpenRoad.Db
open LinkedList

/-- The outcome of a call: it returns, `logger->error` throws, or an assertion fails. -/
inductive Res (σ : Type) where
  | ok (s : σ)
  | error (code : Nat) (s : σ)
  | abort

namespace Res
variable {σ : Type}

/-- Go on where the call returned. -/
def bind (r : Res σ) (f : σ → Res σ) : Res σ :=
  match r with
  | .ok s => f s
  | .error code s => .error code s
  | .abort => .abort

/-- The state a caller sees that catches the error. -/
def state? : Res σ → Option σ
  | .ok s => some s
  | .error _ s => some s
  | .abort => none

/-- The state after a call that raises no error. -/
def ok? : Res σ → Option σ
  | .ok s => some s
  | _ => none

/-- The outcome of a `create` that returns the new object. -/
def ofCreate : Option (Nat × σ) → Res σ
  | none => .abort
  | some (_, s) => .ok s

@[simp] theorem bind_ok (s : σ) (f : σ → Res σ) : (Res.ok s).bind f = f s := rfl
@[simp] theorem bind_error (code : Nat) (s : σ) (f : σ → Res σ) :
    (Res.error code s).bind f = .error code s := rfl
@[simp] theorem bind_abort (f : σ → Res σ) : (Res.abort : Res σ).bind f = .abort := rfl

end Res

/-! ### Objects -/

/-- `dbPlacementStatus` -/
inductive PlacementStatus where
  | NONE | UNPLACED | SUGGESTED | PLACED | LOCKED | FIRM | COVER
  deriving DecidableEq

namespace PlacementStatus

def isPlaced : PlacementStatus → Bool
  | .NONE | .UNPLACED | .SUGGESTED => false
  | .PLACED | .LOCKED | .FIRM | .COVER => true

def isFixed : PlacementStatus → Bool
  | .NONE | .UNPLACED | .SUGGESTED | .PLACED => false
  | .LOCKED | .FIRM | .COVER => true

end PlacementStatus

/-- A master is found by the id of its library and its own id in it. -/
structure MasterId where
  lib : Nat
  id : Nat
  deriving DecidableEq

/-- A `dbMaster`. Its terminals have different names and are listed by their order ids. -/
structure Master where
  width : Nat
  height : Nat
  /-- `_x`, `_y` -/
  origin : Point
  mterms : List String
  nodup : mterms.Nodup

def Master.getPlacementBoundary (m : Master) : Rect :=
  Transform.applyRect ⟨.R0, ⟨-m.origin.x, -m.origin.y⟩⟩ (Rect.init 0 0 m.width m.height)

/-- The `_dbInstFlags` that the modelled functions read or write. -/
structure InstFlags where
  orient : Orient
  status : PlacementStatus
  physicalOnly : Bool
  dontTouch : Bool
  deriving DecidableEq

structure Inst where
  flags : InstFlags
  name : String
  x : Int
  y : Int
  /-- the master of its `_inst_hdr` -/
  master : MasterId
  bbox : Rect
  region : Nat
  module : Nat
  group : Nat
  /-- whether `_hierarchy` is set -/
  hierarchy : Bool
  iterms : List Nat
  deriving DecidableEq

structure ITerm where
  inst : Nat
  mtermIdx : Nat
  deriving DecidableEq

structure Net where
  name : String
  dontTouch : Bool
  deriving DecidableEq

structure ModNet where
  name : String
  parent : Nat
  deriving DecidableEq

/-! ### Journal records -/

/-- An action of the journal with the parameters that are pushed. -/
inductive Record where
  | createInst (lib master : Nat) (name : String) (inst : Nat)
  | deleteInst (lib master : Nat) (name : String) (inst : Nat) (flags : InstFlags) (x y : Int)
      (group module region : Nat)
  | swapInst (inst oldLib oldMaster newLib newMaster : Nat)
  | updateInstFlags (inst : Nat) (prev new : InstFlags)
  | updateInstOrigin (inst : Nat) (prevX prevY x y : Int)
  | createNet (name : String) (net : Nat)
  | deleteNet (name : String) (net : Nat) (dontTouch : Bool)
  | createModNet (name : String) (modNet parent : Nat)
  | deleteModNet (name : String) (modNet parent : Nat)
  | createBTerm (net : Nat) (name : String)
  | deleteBTerm (bterm : Nat)
  | connectITerm (iterm net modNet : Nat)
  | disconnectITerm (iterm net modNet : Nat)
  | connectBTerm (bterm net modNet : Nat)
  | disconnectBTerm (bterm net modNet : Nat)
  | connectModITerm (modITerm modNet : Nat)
  | disconnectModITerm (modITerm modNet : Nat)
  | connectModBTerm (modBTerm modNet : Nat)
  | disconnectModBTerm (modBTerm modNet : Nat)
  deriving DecidableEq

/-! ### The block -/

structure Block where
  /-- the masters of the libraries -/
  master : MasterId → Master
  topModule : Nat
  instTbl : DbTable
  netTbl : DbTable
  modNetTbl : DbTable
  itermTbl : DbTable
  btermTbl : DbTable
  modITermTbl : DbTable
  modBTermTbl : DbTable
  inst : Nat → Inst
  net : Nat → Net
  modNet : Nat → ModNet
  iterm : Nat → ITerm
  /-- the names of the bterms -/
  btermName : Nat → String
  /-- `_net` of the iterms with `_next_net_iterm`, `_prev_net_iterm` and the heads `_iterms` -/
  netITerms : Lists
  /-- `_mnet` of the iterms -/
  modNetITerms : Lists
  /-- `_net` of the bterms -/
  netBTerms : Lists
  /-- `_mnet` of the bterms -/
  modNetBTerms : Lists
  /-- `_mod_net` of the moditerms -/
  modNetModITerms : Lists
  /-- `_modnet` of the modbterms -/
  modNetModBTerms : Lists
  /-- the actions journaled since `beginEco`, the last one first -/
  journal : Option (List Record)

namespace Block

/-- Journal an action, if there is a journal. -/
def record (B : Block) (r : Record) : Block := { B with journal := B.journal.map (r :: ·) }

/-- The instance of an iterm. -/
def itermInst (B : Block) (t : Nat) : Inst := B.inst (B.iterm t).inst

def setInst (B : Block) (i : Nat) (o : Inst) : Block := { B with inst := Function.update B.inst i o }

/-- `dbDatabase::beginEco` -/
def beginEco (B : Block) : Block := { B with journal := some [] }

end Block

end OpenRoad.Db

/-!
Connecting and disconnecting terminals: `dbITerm`, `dbBTerm`, `dbModITerm` and `dbModBTerm`. An iterm
or bterm may be on a flat net and on a hierarchical one at once.
-/

namespace OpenRoad.Db
open LinkedList

namespace Block

/-! ### `dbITerm` -/

def itermDisconnectDbNet (B : Block) (t : Nat) : Res Block :=
  let n := B.netITerms.owner t
  if n = 0 then .ok B
  else if (B.itermInst t).flags.dontTouch then .error 1104 B
  else if (B.net n).dontTouch then .error 1105 B
  else .ok { B.record (.disconnectITerm t n 0) with netITerms := B.netITerms.unlink t n }

def itermDisconnectModNet (B : Block) (t : Nat) : Block :=
  let m := B.modNetITerms.owner t
  if m = 0 then B
  else { B.record (.disconnectITerm t 0 m) with modNetITerms := B.modNetITerms.unlink t m }

/-- `dbITerm::connect(dbNet*)` -/
def itermConnect (B : Block) (t n : Nat) : Res Block :=
  if n = 0 then .error 440 B
  else if B.netITerms.owner t = n then .ok B
  else if (B.itermInst t).flags.dontTouch then .error 369 B
  else if (B.net n).dontTouch then .error 373 B
  else (B.itermDisconnectDbNet t).bind fun B =>
    .ok { B.record (.connectITerm t n 0) with netITerms := B.netITerms.push t n }

/-- `dbITerm::connect(dbModNet*)`: `_mnet` is set before the instance is checked. -/
def itermConnectMod (B : Block) (t m : Nat) : Res Block :=
  if B.modNetITerms.owner t = m then .ok B
  else
    let B := B.itermDisconnectModNet t
    if (B.itermInst t).flags.dontTouch then
      .error 397 { B with modNetITerms :=
        { B.modNetITerms with owner := Function.update B.modNetITerms.owner t m } }
    else .ok { B.record (.connectITerm t 0 m) with modNetITerms := B.modNetITerms.push t m }

/-- `dbITerm::connect(dbNet*, dbModNet*)` -/
def itermConnectBoth (B : Block) (t n m : Nat) : Res Block :=
  (B.itermConnect t n).bind fun B => B.itermConnectMod t m

/-- Off the list of a net, if there is one. -/
def unlinkIf (s : Lists) (t n : Nat) : Lists := if n = 0 then s else s.unlink t n

/-- `dbITerm::disconnect` -/
def itermDisconnect (B : Block) (t : Nat) : Res Block :=
  let n := B.netITerms.owner t
  let m := B.modNetITerms.owner t
  if n = 0 ∧ m = 0 then .ok B
  else if (B.itermInst t).flags.dontTouch then .error 370 B
  else if n ≠ 0 ∧ (B.net n).dontTouch then .error 372 B
  else .ok { B.record (.disconnectITerm t n m) with
    netITerms := unlinkIf B.netITerms t n
    modNetITerms := unlinkIf B.modNetITerms t m }

/-! ### `dbBTerm` -/

/-- `_dbBTerm::connectNet` -/
def btermConnectNet (B : Block) (b n : Nat) : Block :=
  { B.record (.connectBTerm b n 0) with netBTerms := B.netBTerms.push b n }

/-- `_dbBTerm::connectModNet` -/
def btermConnectModNet (B : Block) (b m : Nat) : Block :=
  { B.record (.connectBTerm b 0 m) with modNetBTerms := B.modNetBTerms.push b m }

/-- `_dbBTerm::disconnectNet` -/
def btermDisconnectNet (B : Block) (b : Nat) : Block :=
  let n := B.netBTerms.owner b
  if n = 0 then B
  else { B.record (.disconnectBTerm b n 0) with netBTerms := B.netBTerms.unlink b n }

/-- `_dbBTerm::disconnectModNet` -/
def btermDisconnectModNet (B : Block) (b : Nat) : Block :=
  let m := B.modNetBTerms.owner b
  if m = 0 then B
  else { B.record (.disconnectBTerm b 0 m) with modNetBTerms := B.modNetBTerms.unlink b m }

/-- `dbBTerm::disconnectDbNet` -/
def btermDisconnectDbNet (B : Block) (b : Nat) : Res Block :=
  let n := B.netBTerms.owner b
  if n = 0 then .ok B
  else if (B.net n).dontTouch then .error 1106 B
  else .ok (B.btermDisconnectNet b)

/-- `dbBTerm::connect(dbNet*)` -/
def btermConnect (B : Block) (b n : Nat) : Res Block :=
  if (B.net n).dontTouch then .error 377 B
  else (B.btermDisconnectDbNet b).bind fun B => .ok (B.btermConnectNet b n)

/-- `dbBTerm::connect(dbModNet*)` -/
def btermConnectMod (B : Block) (b m : Nat) : Block :=
  if B.modNetBTerms.owner b = m then B
  else (B.btermDisconnectModNet b).btermConnectModNet b m

/-- `dbBTerm::disconnect` looks at the hierarchical net only where there is a flat one. -/
def btermDisconnect (B : Block) (b : Nat) : Res Block :=
  let n := B.netBTerms.owner b
  if n = 0 then .ok B
  else if (B.net n).dontTouch then .error 375 B
  else .ok ((B.btermDisconnectNet b).btermDisconnectModNet b)

/-- Whether a bterm has this name. -/
def hasBTerm (B : Block) (name : String) : Bool :=
  ∃ b ∈ B.btermTbl.allocated, B.btermName b = name

/-- `dbBTerm::create` -/
def btermCreate (B : Block) (n : Nat) (name : String) : Res Block :=
  if B.hasBTerm name then .ok B
  else if (B.net n).dontTouch then .error 376 B
  else
    match B.btermTbl.create with
    | none => .abort
    | some (b, T) =>
        let B := { B.record (.createBTerm n name) with
          btermTbl := T
          btermName := Function.update B.btermName b name
          netBTerms := B.netBTerms.clearMember b
          modNetBTerms := B.modNetBTerms.clearMember b }
        .ok (B.btermConnectNet b n)

/-- `dbBTerm::destroy` -/
def btermDestroy (B : Block) (b : Nat) : Res Block :=
  let n := B.netBTerms.owner b
  if n ≠ 0 ∧ (B.net n).dontTouch then .error 374 B
  else
    let B := (B.btermDisconnectNet b).record (.deleteBTerm b)
    match B.btermTbl.destroy b with
    | none => .abort
    | some T => .ok { B with btermTbl := T }

/-! ### `dbModITerm` -/

/-- The list of the net the pin is on before is not looked at. -/
def modITermConnect (B : Block) (t m : Nat) : Block :=
  if B.modNetModITerms.owner t = m then B
  else { B.record (.connectModITerm t m) with modNetModITerms := B.modNetModITerms.push t m }

def modITermDisconnect (B : Block) (t : Nat) : Block :=
  let m := B.modNetModITerms.owner t
  if m = 0 then B
  else { B.record (.disconnectModITerm t m) with
    modNetModITerms := B.modNetModITerms.unlinkByPrev t m }

/-! ### `dbModBTerm` -/

def modBTermConnect (B : Block) (t m : Nat) : Block :=
  if B.modNetModBTerms.owner t = m then B
  else { B.record (.connectModBTerm t m) with modNetModBTerms := B.modNetModBTerms.push t m }

/-- Unlike `dbModITerm::disconnect`, this also zeroes the links of the pin itself. -/
def modBTermDisconnect (B : Block) (t : Nat) : Block :=
  let m := B.modNetModBTerms.owner t
  if m = 0 then B
  else { B.record (.disconnectModBTerm t m) with
    modNetModBTerms := (B.modNetModBTerms.unlinkByPrev t m).clearMember t }

end Block

end OpenRoad.Db
