import OpenRoad.DbWireOpcode

/-!
`dbWireEncoder`. Each call appends entries to the wire that is being encoded and keeps the current
layer, point and rule of the path. Objects are named by their ids. Where the source writes a body
out for the default width and again for a rule, the flag of the width is a parameter here.
-/

namespace OpenRoad.Db

open WireOp

/-- `dbWireType` -/
inductive DbWireType where
  | NONE | COVER | FIXED | ROUTED | SHIELD | NOSHIELD
  deriving DecidableEq

/-- `dbTechLayerRule`: a rule of the block or of the technology. Ids of objects are positive. -/
structure DbTechLayerRule where
  oid : Nat
  isBlockRule : Bool
  oid_pos : 0 < oid
  deriving DecidableEq

def DbTechLayerRule.opcode (rule : DbTechLayerRule) : UInt8 :=
  if rule.isBlockRule then WOP_RULE.code ||| WOP_BLOCK_RULE else WOP_RULE.code

/-- A failed assertion, or an error of the logger with its id and text. -/
inductive WireError where
  | zassert
  | error (id : Nat) (text : String)
  deriving DecidableEq

/-- `dbWireEncoder::getWireType`; a type without a code is encoded as `WOP_NONE`. -/
def getWireType : DbWireType → UInt8
  | .NONE => WOP_NONE
  | .COVER => WOP_COVER
  | .FIXED => WOP_FIXED
  | .ROUTED => WOP_ROUTED
  | .NOSHIELD => WOP_NOSHIELD
  | _ => WOP_NONE

structure DbWireEncoder where
  ops : List WireEntry := []
  layer : Nat := 0
  x : Int := 0
  y : Int := 0
  nonDefaultRule : Nat := 0
  pointCnt : Nat := 0
  viaCnt : Nat := 0
  prevExtendedColinearPnt : Bool := false
  wireType : UInt8 := 0
  ruleOpcode : UInt8 := 0
  deriving DecidableEq

namespace DbWireEncoder

/-- `_idx` counts the entries. -/
def idx (E : DbWireEncoder) : Nat := E.ops.length

/-- `begin` clears the encoder; only the wire type stays. -/
def begin (E : DbWireEncoder) : DbWireEncoder := { wireType := E.wireType }

def addOp (E : DbWireEncoder) (op : UInt8) (value : Int) : DbWireEncoder :=
  { E with ops := E.ops ++ [(op, value)] }

def initPath (E : DbWireEncoder) (layer : Nat) (wireType : UInt8) : DbWireEncoder :=
  { E with
    wireType
    pointCnt := 0
    viaCnt := 0
    layer
    nonDefaultRule := 0
    ruleOpcode := 0
    prevExtendedColinearPnt := false }

def initPathRule (E : DbWireEncoder) (layer : Nat) (wireType : UInt8) (rule : DbTechLayerRule) :
    DbWireEncoder :=
  { E with
    wireType
    pointCnt := 0
    viaCnt := 0
    layer
    nonDefaultRule := rule.oid
    ruleOpcode := rule.opcode
    prevExtendedColinearPnt := false
    x := 0
    y := 0 }

/-! ### Points -/

/-- Entries of points carry `WOP_DEFAULT_WIDTH` on a path without a rule. -/
def widthFlag (E : DbWireEncoder) : UInt8 := if E.nonDefaultRule = 0 then WOP_DEFAULT_WIDTH else 0

/-- The rule is inserted again after every 16th point. -/
def insertRule (E : DbWireEncoder) : DbWireEncoder :=
  if E.nonDefaultRule ≠ 0 ∧ E.pointCnt ≠ 0 ∧
      E.pointCnt &&& (WOP_NON_DEFAULT_WIDTH_POINT_CNT - 1) = 0 then
    E.addOp E.ruleOpcode E.nonDefaultRule
  else E

def addProperty (E : DbWireEncoder) (property : Nat) : DbWireEncoder :=
  if E.pointCnt ≠ 1 then E.addOp WOP_PROPERTY.code property else E

/-- `addPoint(x, y, property)` -/
def addPoint (E : DbWireEncoder) (x y : Int) (property : Nat) :
    Except WireError (DbWireEncoder × Nat) := do
  let jctId := E.idx
  let w := E.widthFlag
  let (E, jctId) ←
    if E.pointCnt = 0 then
      pure ({ (E.addOp (WOP_X.code ||| w) x).addOp (WOP_Y.code ||| w) y with
        x, y, pointCnt := E.pointCnt + 1 }, jctId + 1)
    else if E.x = x ∧ E.y = y then
      pure (E.addOp (WOP_COLINEAR.code ||| w) 0, jctId)
    else if E.y = y then
      pure ({ E.addOp (WOP_X.code ||| w) x with x, pointCnt := E.pointCnt + 1 }, jctId)
    else if E.x = x then
      pure ({ E.addOp (WOP_Y.code ||| w) y with y, pointCnt := E.pointCnt + 1 }, jctId)
    else throw .zassert
  pure ({ E.insertRule.addProperty property with prevExtendedColinearPnt := false }, jctId)

def colinearExtRule1 (E : DbWireEncoder) : Bool := 1 < E.pointCnt || (0 < E.pointCnt && 0 < E.viaCnt)

def colinearExtRule2 (E : DbWireEncoder) : Bool := E.prevExtendedColinearPnt == false

/-- `addPoint(x, y, ext, property)` -/
def addPointExt (E : DbWireEncoder) (x y ext : Int) (property : Nat) :
    Except WireError (DbWireEncoder × Nat) := do
  let jctId := E.idx
  let w := E.widthFlag
  let (E, jctId) ←
    if E.pointCnt = 0 then
      pure ({ ((E.addOp (WOP_X.code ||| w) x).addOp (WOP_Y.code ||| (WOP_EXTENSION ||| w)) y).addOp
          WOP_OPERAND.code ext with
        x, y, pointCnt := E.pointCnt + 1, prevExtendedColinearPnt := false }, jctId + 1)
    else if E.x = x ∧ E.y = y then
      if E.colinearExtRule1 && E.colinearExtRule2 then
        pure ({ E.addOp (WOP_COLINEAR.code ||| (WOP_EXTENSION ||| w)) ext with
          prevExtendedColinearPnt := true }, jctId)
      else throw .zassert
    else if E.y = y then
      pure ({ (E.addOp (WOP_X.code ||| (WOP_EXTENSION ||| w)) x).addOp WOP_OPERAND.code ext with
        x, pointCnt := E.pointCnt + 1, prevExtendedColinearPnt := false }, jctId)
    else if E.x = x then
      pure ({ (E.addOp (WOP_Y.code ||| (WOP_EXTENSION ||| w)) y).addOp WOP_OPERAND.code ext with
        y, pointCnt := E.pointCnt + 1, prevExtendedColinearPnt := false }, jctId)
    else throw .zassert
  pure (E.insertRule.addProperty property, jctId)

/-! ### Colours -/

def setColor (E : DbWireEncoder) (maskColor : UInt8) : Except WireError DbWireEncoder :=
  if maskColor < 1 ∨ 3 < maskColor then
    throw (.error 1102 ("Mask color: " ++ toString maskColor.toNat ++ ", but must be between 1 and 3"))
  else pure (E.addOp WOP_COLOR.code maskColor.toNat)

/-- The value 0 represents no mask color. -/
def clearColor (E : DbWireEncoder) : DbWireEncoder := E.addOp WOP_COLOR.code 0

def setViaColor (E : DbWireEncoder) (bottomColor cutColor topColor : UInt8) :
    Except WireError DbWireEncoder :=
  match [bottomColor, cutColor, topColor].find? (3 < ·) with
  | some color =>
      throw (.error 1103 ("Mask color: " ++ toString color.toNat ++ ", but must be between 0 and 3"))
  | none =>
      pure (E.addOp WOP_VIACOLOR.code (bottomColor <<< 4 ||| cutColor <<< 2 ||| topColor).toNat)

def clearViaColor (E : DbWireEncoder) : DbWireEncoder := E.addOp WOP_VIACOLOR.code 0

/-! ### Vias, rects and terms -/

variable (tech : DbTech)

def addVia (E : DbWireEncoder) (via : Nat) : Except WireError (DbWireEncoder × Nat) := do
  let jctId := E.idx
  if E.pointCnt = 0 then throw .zassert
  let top := (tech.getVia via).topLayer
  let bot := (tech.getVia via).bottomLayer
  let E ←
    if top = E.layer then pure { E.addOp WOP_VIA.code via with layer := bot }
    else if bot = E.layer then
      pure { E.addOp (WOP_VIA.code ||| WOP_VIA_EXIT_TOP) via with layer := top }
    else throw .zassert
  pure ({ E with viaCnt := E.viaCnt + 1 }, jctId)

def addTechVia (E : DbWireEncoder) (via : Nat) : Except WireError (DbWireEncoder × Nat) := do
  let jctId := E.idx
  if E.pointCnt = 0 then throw .zassert
  let top := (tech.getTechVia via).topLayer
  let bot := (tech.getTechVia via).bottomLayer
  let E ←
    if top = E.layer then pure { E.addOp WOP_TECH_VIA.code via with layer := bot }
    else if bot = E.layer then
      pure { E.addOp (WOP_TECH_VIA.code ||| WOP_VIA_EXIT_TOP) via with layer := top }
    else throw .zassert
  let E := E.clearColor
  pure ({ E with viaCnt := E.viaCnt + 1 }, jctId)

def addRect (E : DbWireEncoder) (deltaX1 deltaY1 deltaX2 deltaY2 : Int) :
    Except WireError DbWireEncoder :=
  if E.pointCnt = 0 then throw .zassert
  else pure ((((E.addOp WOP_RECT.code deltaX1).addOp WOP_OPERAND.code deltaY1).addOp
    WOP_OPERAND.code deltaX2).addOp WOP_OPERAND.code deltaY2)

/-- `addITerm` and `addBTerm` -/
def addTerm (E : DbWireEncoder) (op : WireOp) (term : Nat) : Except WireError DbWireEncoder :=
  if E.pointCnt = 0 then throw .zassert else pure (E.addOp op.code term)

def addITerm (E : DbWireEncoder) (iterm : Nat) : Except WireError DbWireEncoder :=
  E.addTerm WOP_ITERM iterm

def addBTerm (E : DbWireEncoder) (bterm : Nat) : Except WireError DbWireEncoder :=
  E.addTerm WOP_BTERM bterm

/-! ### Path starts -/

/-- `newPath(layer, type)` -/
def newPath (E : DbWireEncoder) (layer : Nat) (type : DbWireType) : DbWireEncoder :=
  let E := E.initPath layer (getWireType type)
  E.addOp (WOP_PATH.code ||| E.wireType) layer

/-- `newPath(layer, type, rule)` -/
def newPathRule (E : DbWireEncoder) (layer : Nat) (type : DbWireType) (rule : DbTechLayerRule) :
    DbWireEncoder :=
  let E := E.initPathRule layer (getWireType type) rule
  (E.addOp (WOP_PATH.code ||| E.wireType) layer).addOp E.ruleOpcode E.nonDefaultRule

/-- The bodies of `newPathShort` and `newPathVirtualWire`, with and without a rule. -/
def newPathOffset (E : DbWireEncoder) (op : WireOp) (jctId : Int) (layer : Nat) (type : DbWireType)
    (rule : Option DbTechLayerRule) : Except WireError DbWireEncoder :=
  if 0 ≤ jctId ∧ jctId < E.idx then
    match rule with
    | none =>
        let E := E.initPath layer (getWireType type)
        pure ((E.addOp (op.code ||| E.wireType) layer).addOp WOP_OPERAND.code jctId)
    | some rule =>
        let E := E.initPathRule layer (getWireType type) rule
        pure (((E.addOp (op.code ||| E.wireType) layer).addOp WOP_OPERAND.code jctId).addOp
          E.ruleOpcode E.nonDefaultRule)
  else throw .zassert

def newPathShort (E : DbWireEncoder) (jctId : Int) (layer : Nat) (type : DbWireType)
    (rule : Option DbTechLayerRule) : Except WireError DbWireEncoder :=
  E.newPathOffset WOP_SHORT jctId layer type rule

def newPathVirtualWire (E : DbWireEncoder) (jctId : Int) (layer : Nat) (type : DbWireType)
    (rule : Option DbTechLayerRule) : Except WireError DbWireEncoder :=
  E.newPathOffset WOP_VWIRE jctId layer type rule

/-- The bodies of `newPath(jct_id, ...)` and `newPathExt(jct_id, ext, ...)`: the path starts with a
colinear point at the junction. The overloads without a type pass the current `_wire_type` on. -/
def newPathJunction (E : DbWireEncoder) (jctId : Int) (wireType : UInt8)
    (rule : Option DbTechLayerRule) (extFlag : UInt8) (ext : Int) : Except WireError DbWireEncoder :=
  if 0 ≤ jctId ∧ jctId < E.idx then
    match getPrevPoint tech E.ops jctId.toNat true with
    | none => throw .zassert
    | some pnt =>
        match rule with
        | none =>
            let E := { E.initPath pnt.layer wireType with x := pnt.x, y := pnt.y, pointCnt := 1 }
            pure ((E.addOp (WOP_JUNCTION.code ||| E.wireType) jctId).addOp
              (WOP_COLINEAR.code ||| (extFlag ||| WOP_DEFAULT_WIDTH)) ext)
        | some rule =>
            let E := { E.initPathRule pnt.layer wireType rule with
              x := pnt.x, y := pnt.y, pointCnt := 1 }
            pure (((E.addOp (WOP_JUNCTION.code ||| E.wireType) jctId).addOp
              E.ruleOpcode E.nonDefaultRule).addOp (WOP_COLINEAR.code ||| extFlag) ext)
  else throw .zassert

/-- The wire type of a path start that may be given without one. -/
def givenType (E : DbWireEncoder) : Option DbWireType → UInt8
  | none => E.wireType
  | some type => getWireType type

/-- `newPath(jct_id)`, `newPath(jct_id, type)`, `newPath(jct_id, rule)` and
`newPath(jct_id, type, rule)` -/
def newPathFrom (E : DbWireEncoder) (jctId : Int) (type : Option DbWireType)
    (rule : Option DbTechLayerRule) : Except WireError DbWireEncoder :=
  E.newPathJunction tech jctId (E.givenType type) rule 0 0

/-- `newPathExt(jct_id, ext)`, `newPathExt(jct_id, ext, type)`, `newPathExt(jct_id, ext, rule)` and
`newPathExt(jct_id, ext, type, rule)` -/
def newPathExt (E : DbWireEncoder) (jctId ext : Int) (type : Option DbWireType)
    (rule : Option DbTechLayerRule) : Except WireError DbWireEncoder :=
  E.newPathJunction tech jctId (E.givenType type) rule WOP_EXTENSION ext

end DbWireEncoder

/-! ### Calls -/

/-- A call of the encoder with its arguments. -/
inductive EncoderCall where
  | addPoint (x y : Int) (property : Nat)
  | addPointExt (x y ext : Int) (property : Nat)
  | addVia (via : Nat)
  | addTechVia (via : Nat)
  | addRect (deltaX1 deltaY1 deltaX2 deltaY2 : Int)
  | setColor (maskColor : UInt8)
  | clearColor
  | setViaColor (bottomColor cutColor topColor : UInt8)
  | clearViaColor
  | addITerm (iterm : Nat)
  | addBTerm (bterm : Nat)
  | newPath (layer : Nat) (type : DbWireType)
  | newPathRule (layer : Nat) (type : DbWireType) (rule : DbTechLayerRule)
  | newPathShort (jctId : Int) (layer : Nat) (type : DbWireType) (rule : Option DbTechLayerRule)
  | newPathVirtualWire (jctId : Int) (layer : Nat) (type : DbWireType) (rule : Option DbTechLayerRule)
  | newPathFrom (jctId : Int) (type : Option DbWireType) (rule : Option DbTechLayerRule)
  | newPathExt (jctId ext : Int) (type : Option DbWireType) (rule : Option DbTechLayerRule)
  deriving DecidableEq

/-- Perform a call. The calls that add a point or a via return its junction id. -/
def DbWireEncoder.perform (tech : DbTech) (E : DbWireEncoder) :
    EncoderCall → Except WireError (DbWireEncoder × Nat)
  | .addPoint x y property => E.addPoint x y property
  | .addPointExt x y ext property => E.addPointExt x y ext property
  | .addVia via => E.addVia tech via
  | .addTechVia via => E.addTechVia tech via
  | .addRect deltaX1 deltaY1 deltaX2 deltaY2 =>
      return (← E.addRect deltaX1 deltaY1 deltaX2 deltaY2, 0)
  | .setColor maskColor => return (← E.setColor maskColor, 0)
  | .clearColor => return (E.clearColor, 0)
  | .setViaColor bottomColor cutColor topColor =>
      return (← E.setViaColor bottomColor cutColor topColor, 0)
  | .clearViaColor => return (E.clearViaColor, 0)
  | .addITerm iterm => return (← E.addITerm iterm, 0)
  | .addBTerm bterm => return (← E.addBTerm bterm, 0)
  | .newPath layer type => return (E.newPath layer type, 0)
  | .newPathRule layer type rule => return (E.newPathRule layer type rule, 0)
  | .newPathShort jctId layer type rule => return (← E.newPathShort jctId layer type rule, 0)
  | .newPathVirtualWire jctId layer type rule =>
      return (← E.newPathVirtualWire jctId layer type rule, 0)
  | .newPathFrom jctId type rule => return (← E.newPathFrom tech jctId type rule, 0)
  | .newPathExt jctId ext type rule => return (← E.newPathExt tech jctId ext type rule, 0)

end OpenRoad.Db
