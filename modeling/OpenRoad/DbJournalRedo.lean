import OpenRoad.DbJournalWriter

/-!
`dbJournal::redo`: each action is popped off the log by the handler that its byte and the type of its
object select, and performed again. What is performed is given as the calls the handler makes.
-/

namespace OpenRoad.Db
open ByteReader DbJournalLog

/-- A call that a handler makes. -/
inductive RedoCall where
  | netCreate (name : List UInt8)
  | btermCreate (net : UInt32) (name : List UInt8)
  | instCreate (lib master : UInt32) (name : List UInt8)
  | rsegCreate (net : UInt32) (x y : Int32) (pathDir : UInt32) (allocateCap : Bool)
  | capNodeCreate (net node : UInt32) (isForeign : Bool)
  | ccSegCreate (nodeA nodeB : UInt32) (merge : Bool)
  | moduleCreate (name : List UInt8)
  | modITermCreate (parent : UInt32) (name : List UInt8) (modBTerm : UInt32)
  | modBTermCreate (parent : UInt32) (name : List UInt8)
  | modInstCreate (parent master : UInt32) (name : List UInt8)
  | modNetCreate (parent : UInt32) (name : List UInt8)
  | netDestroy (net : UInt32)
  | btermDestroy (bterm : UInt32)
  | instDestroy (inst : UInt32)
  | rsegDestroy (rseg net : UInt32)
  | rsegDestroyS (rseg : UInt32)
  | capNodeDestroy (node : UInt32)
  | ccSegDestroy (seg : UInt32)
  | ccSegDestroyS (seg : UInt32)
  | moduleDestroy (module : UInt32)
  | modITermDestroy (modITerm : UInt32)
  | modBTermDestroy (modBTerm : UInt32)
  | modInstDestroy (modInst : UInt32)
  | modNetDestroy (modNet : UInt32)
  | itermConnect (iterm net : UInt32)
  | itermConnectMod (iterm modNet : UInt32)
  | btermConnect (bterm net : UInt32)
  | modBTermConnect (modBTerm modNet : UInt32)
  | modITermConnect (modITerm modNet : UInt32)
  | itermDisconnect (iterm : UInt32)
  | itermDisconnectDbNet (iterm : UInt32)
  | itermDisconnectModNet (iterm : UInt32)
  | btermDisconnectDbNet (bterm : UInt32)
  | btermDisconnectDbModNet (bterm : UInt32)
  | modBTermDisconnect (modBTerm : UInt32)
  | modITermDisconnect (modITerm : UInt32)
  | instSwapMaster (inst lib master : UInt32)
  | setFlags (obj : DbObjectType) (id flags : UInt32)
  | netSetNonDefaultRule (net rule : UInt32) (blockRule : Bool)
  | netSetTermExtIds (net : UInt32) (capId : Int32)
  | netSet1stRSegId (net rseg : UInt32)
  | netReverseRSegs (net : UInt32)
  | netSet1stCapNodeId (net capNode : UInt32)
  | instSetOrigin (inst : UInt32) (x y : Int32)
  deriving DecidableEq

namespace DbJournal

/-- A handler pops parameters and makes calls. -/
abbrev Handler := Reader JournalError (List RedoCall)

/-- The types that are handled somewhere; the others end in the default cases. -/
def objTypes : List DbObjectType :=
  [.dbBlockObj, .dbInstObj, .dbNetObj, .dbBTermObj, .dbITermObj, .dbCapNodeObj, .dbRSegObj,
    .dbCCSegObj, .dbGuideObj, .dbModBTermObj, .dbModInstObj, .dbModITermObj, .dbModNetObj,
    .dbModuleObj, .dbTechNonDefaultRuleObj, .dbNameObj]

/-- The enumerator of a value, if it is one of these. -/
def objTypeOf (c : Int32) : Option DbObjectType := objTypes.find? fun t => t.code == c

variable (debug : Bool)

def popObjectType : Reader JournalError (Option DbObjectType) := do
  let c ← popInt debug
  pure (objTypeOf c)

/-- A call with an object whose id may be null. -/
def callIf (id : UInt32) (call : RedoCall) : List RedoCall := if id ≠ 0 then [call] else []

def redoCreateObject : Handler := do
  match ← popObjectType debug with
  | some .dbNetObj =>
      let name ← popString debug
      let _ ← popUint debug
      pure [.netCreate name]
  | some .dbBTermObj =>
      let net ← popUint debug
      let name ← popString debug
      pure [.btermCreate net name]
  | some .dbInstObj =>
      let lib ← popUint debug
      let master ← popUint debug
      let name ← popString debug
      let _ ← popUint debug
      pure [.instCreate lib master name]
  | some .dbRSegObj =>
      let net ← popUint debug
      let x ← popInt debug
      let y ← popInt debug
      let pathDir ← popUint debug
      let allocateCap ← popBool debug
      pure [.rsegCreate net x y pathDir allocateCap]
  | some .dbCapNodeObj =>
      let net ← popUint debug
      let node ← popUint debug
      let isForeign ← popBool debug
      pure [.capNodeCreate net node isForeign]
  | some .dbCCSegObj =>
      let nodeA ← popUint debug
      let nodeB ← popUint debug
      let merge ← popBool debug
      pure [.ccSegCreate nodeA nodeB merge]
  | some .dbModuleObj =>
      let name ← popString debug
      let _ ← popUint debug
      pure [.moduleCreate name]
  | some .dbModITermObj =>
      let name ← popString debug
      let _ ← popUint debug
      let modBTerm ← popUint debug
      let parent ← popUint debug
      pure [.modITermCreate parent name modBTerm]
  | some .dbModBTermObj =>
      let name ← popString debug
      let _ ← popUint debug
      let parent ← popUint debug
      pure [.modBTermCreate parent name]
  | some .dbModInstObj =>
      let name ← popString debug
      let _ ← popUint debug
      let parent ← popUint debug
      let master ← popUint debug
      pure [.modInstCreate parent master name]
  | some .dbModNetObj =>
      let name ← popString debug
      let _ ← popUint debug
      let parent ← popUint debug
      pure [.modNetCreate parent name]
  | _ => throw (.critical 1107)

def redoDeleteObject : Handler := do
  match ← popObjectType debug with
  | some .dbNetObj =>
      let _ ← popString debug
      let net ← popUint debug
      let _ ← popUint debug
      let _ ← popUint debug
      pure [.netDestroy net]
  | some .dbBTermObj =>
      let bterm ← popUint debug
      pure [.btermDestroy bterm]
  | some .dbInstObj =>
      let _ ← popUint debug
      let _ ← popUint debug
      let _ ← popString debug
      let inst ← popUint debug
      let _ ← popUint debug
      let _ ← popInt debug
      let _ ← popInt debug
      let _ ← popUint debug
      let _ ← popUint debug
      let _ ← popUint debug
      pure [.instDestroy inst]
  | some .dbRSegObj =>
      let rseg ← popUint debug
      let net ← popUint debug
      pure (if net ≠ 0 then [.rsegDestroy rseg net] else [.rsegDestroyS rseg])
  | some .dbCapNodeObj =>
      let node ← popUint debug
      pure [.capNodeDestroy node]
  | some .dbCCSegObj =>
      let seg ← popUint debug
      let regular ← popUint debug
      pure (if regular ≠ 0 then [.ccSegDestroy seg] else [.ccSegDestroyS seg])
  | some .dbModuleObj =>
      let _ ← popString debug
      let module ← popUint debug
      pure [.moduleDestroy module]
  | some .dbModITermObj =>
      let _ ← popString debug
      let modITerm ← popUint debug
      let _ ← popUint debug
      pure [.modITermDestroy modITerm]
  | some .dbModBTermObj =>
      let _ ← popString debug
      let modBTerm ← popUint debug
      pure [.modBTermDestroy modBTerm]
  | some .dbModInstObj =>
      let _ ← popString debug
      let modInst ← popUint debug
      let _ ← popUint debug
      let _ ← popUint debug
      pure [.modInstDestroy modInst]
  | some .dbModNetObj =>
      let _ ← popString debug
      let modNet ← popUint debug
      let _ ← popUint debug
      pure [.modNetDestroy modNet]
  | _ => throw (.critical 1108)

def redoConnectObject : Handler := do
  match ← popObjectType debug with
  | some .dbITermObj =>
      let iterm ← popUint debug
      let net ← popUint debug
      let modNet ← popUint debug
      pure (callIf net (.itermConnect iterm net) ++ callIf modNet (.itermConnectMod iterm modNet))
  | some .dbBTermObj =>
      let bterm ← popUint debug
      let net ← popUint debug
      pure [.btermConnect bterm net]
  | some .dbModBTermObj =>
      let modBTerm ← popUint debug
      let modNet ← popUint debug
      pure (callIf modNet (.modBTermConnect modBTerm modNet))
  | some .dbModITermObj =>
      let modITerm ← popUint debug
      let modNet ← popUint debug
      pure (callIf modNet (.modITermConnect modITerm modNet))
  | _ => throw (.critical 1110)

def redoDisconnectObject : Handler := do
  match ← popObjectType debug with
  | some .dbITermObj =>
      let iterm ← popUint debug
      let net ← popUint debug
      let modNet ← popUint debug
      pure (if net ≠ 0 ∧ modNet ≠ 0 then [.itermDisconnect iterm]
        else if net ≠ 0 then [.itermDisconnectDbNet iterm]
        else callIf modNet (.itermDisconnectModNet iterm))
  | some .dbBTermObj =>
      let bterm ← popUint debug
      let net ← popUint debug
      let modNet ← popUint debug
      pure (callIf net (.btermDisconnectDbNet bterm) ++
        callIf modNet (.btermDisconnectDbModNet bterm))
  | some .dbModBTermObj =>
      let modBTerm ← popUint debug
      let _ ← popUint debug
      pure [.modBTermDisconnect modBTerm]
  | some .dbModITermObj =>
      let modITerm ← popUint debug
      let _ ← popUint debug
      pure [.modITermDisconnect modITerm]
  | _ => throw (.critical 1109)

/-- Nothing is popped for another type. -/
def redoSwapObject : Handler := do
  match ← popObjectType debug with
  | some .dbInstObj =>
      let inst ← popUint debug
      let _ ← popUint debug
      let _ ← popUint debug
      let lib ← popUint debug
      let master ← popUint debug
      pure [.instSwapMaster inst lib master]
  | _ => pure []

/-- The flags of an object, which the first field of each class stands for. -/
def redoFlags (obj : DbObjectType) (id : UInt32) : Handler := do
  let _ ← popUint debug
  let flags ← popUint debug
  pure [.setFlags obj id flags]

def redoUpdateNetField : Handler := do
  let net ← popUint debug
  let field ← popInt debug
  match field with
  | 0 => redoFlags debug .dbNetObj net
  | 1 =>
      let _ ← popUint debug
      let rule ← popUint debug
      let _ ← popBool debug
      let blockRule ← popBool debug
      pure [.netSetNonDefaultRule net rule blockRule]
  | 2 =>
      let capId ← popInt debug
      pure [.netSetTermExtIds net capId]
  | 3 =>
      let _ ← popUint debug
      let capNode ← popUint debug
      pure [.netSet1stCapNodeId net capNode]
  | 4 =>
      let _ ← popUint debug
      let rseg ← popUint debug
      pure [.netSet1stRSegId net rseg]
  | 5 => pure [.netReverseRSegs net]
  | _ => pure []

def redoUpdateInstField : Handler := do
  let inst ← popUint debug
  let field ← popInt debug
  match field with
  | 0 => redoFlags debug .dbInstObj inst
  | 1 =>
      let _ ← popInt debug
      let _ ← popInt debug
      let x ← popInt debug
      let y ← popInt debug
      pure [.instSetOrigin inst x y]
  | _ => pure []

/-- The terminals have no field but their flags. -/
def redoUpdateTermField (obj : DbObjectType) : Handler := do
  let id ← popUint debug
  let field ← popInt debug
  if field = 0 then redoFlags debug obj id else pure []

/-- The fields of blocks and of parasitics are left to `otherField`. -/
def redoUpdateField (otherField : DbObjectType → Handler) : Handler := do
  match ← popObjectType debug with
  | some .dbNetObj => redoUpdateNetField debug
  | some .dbInstObj => redoUpdateInstField debug
  | some .dbBTermObj => redoUpdateTermField debug .dbBTermObj
  | some .dbITermObj => redoUpdateTermField debug .dbITermObj
  | some .dbBlockObj => otherField .dbBlockObj
  | some .dbRSegObj => otherField .dbRSegObj
  | some .dbCCSegObj => otherField .dbCCSegObj
  | some .dbCapNodeObj => otherField .dbCapNodeObj
  | _ => pure []

variable (otherField : DbObjectType → Handler)

/-- The handler of an action; another byte selects none. -/
def handler (curAction : UInt8) : Handler :=
  if curAction = Action.CREATE_OBJECT.code then redoCreateObject debug
  else if curAction = Action.DELETE_OBJECT.code then redoDeleteObject debug
  else if curAction = Action.CONNECT_OBJECT.code then redoConnectObject debug
  else if curAction = Action.DISCONNECT_OBJECT.code then redoDisconnectObject debug
  else if curAction = Action.SWAP_OBJECT.code then redoSwapObject debug
  else if curAction = Action.UPDATE_FIELD.code then redoUpdateField debug otherField
  else if curAction = Action.END_ACTION.code then throw (.critical 399)
  else pure []

/-- One pass of the loop. -/
def redoAction : Handler := do
  let s ← get
  let curAction ← popUchar debug
  let calls ← handler debug otherField curAction
  let endAction ← popUchar debug
  let actionIdx ← popUint debug
  if endAction ≠ Action.END_ACTION.code ∨ actionIdx ≠ UInt32.ofNat s.idx then throw (.critical 419)
  else pure calls

/-- The loop, at most `fuel` times: each pass takes bytes, so there are not more than bytes. -/
def redoLoop : Nat → Handler
  | 0 => pure []
  | fuel + 1 => do
      let s ← get
      if s.idx = s.data.length then pure []
      else do
        let calls ← redoAction debug otherField
        let rest ← redoLoop fuel
        pure (calls ++ rest)

/-- The calls made, or why the program ended. -/
def redo (log : List UInt8) : Except JournalError (List RedoCall) :=
  (redoLoop debug otherField log.length ⟨log, 0⟩).map Prod.fst

end DbJournal

end OpenRoad.Db
