import OpenRoad.DbWireEncoder
import OpenRoad.Scanner

/-!
`dbWireDecoder`. One pass of `next` decodes the entry at `_idx`: it returns an opcode, or goes on to
the next entry. After `next` the client reads the element with the getters of its opcode.
-/

namespace OpenRoad.Db

open WireOp

structure ViaColor where
  bottomColor : UInt8
  cutColor : UInt8
  topColor : UInt8
  deriving DecidableEq

namespace DbWireDecoder

inductive OpCode where
  | PATH | JUNCTION | SHORT | VWIRE | POINT | POINT_EXT | VIA | TECH_VIA | RECT | ITERM | BTERM | RULE
  | END_DECODE
  deriving DecidableEq

end DbWireDecoder

structure DbWireDecoder where
  x : Int := 0
  y : Int := 0
  defaultWidth : Bool := true
  blockRule : Bool := false
  layer : Nat := 0
  operand : Int := 0
  operand2 : Int := 0
  idx : Nat := 0
  jctId : Int := -1
  wireType : DbWireType := .NONE
  pointCnt : Nat := 0
  opcode : DbWireDecoder.OpCode := .END_DECODE
  property : Nat := 0
  deltaX1 : Int := 0
  deltaY1 : Int := 0
  deltaX2 : Int := 0
  deltaY2 : Int := 0
  color : Option UInt8 := none
  viacolor : Option ViaColor := none

namespace DbWireDecoder

variable (tech : DbTech) (ops : List WireEntry)

/-- `nextOp`; it asserts that there is an entry. -/
def nextOp (D : DbWireDecoder) : Option (WireEntry × DbWireDecoder) :=
  match ops[D.idx]? with
  | none => none
  | some entry => some (entry, { D with idx := D.idx + 1 })

/-- A rule after a point only speeds up searches. -/
def flushRule (D : DbWireDecoder) : DbWireDecoder :=
  match ops[D.idx]? with
  | none => D
  | some entry =>
      if WireOp.ofOpcode entry.1 = some WOP_RULE then { D with idx := D.idx + 1 } else D

/-- `switch (opcode & WOP_WIRE_TYPE_MASK)`; other bits leave the wire type as it is. -/
def setWireType (D : DbWireDecoder) (opcode : UInt8) : DbWireDecoder :=
  let bits := opcode &&& WOP_WIRE_TYPE_MASK
  { D with
    wireType :=
      if bits = WOP_NONE then .NONE
      else if bits = WOP_COVER then .COVER
      else if bits = WOP_FIXED then .FIXED
      else if bits = WOP_ROUTED then .ROUTED
      else if bits = WOP_NOSHIELD then .NOSHIELD
      else D.wireType }

/-- The start of a path on the layer the entry names. -/
def startPath (D : DbWireDecoder) (opcode : UInt8) : DbWireDecoder :=
  { D.setWireType opcode with layer := D.operand.toNat, pointCnt := 0, defaultWidth := true }

/-- The extension of a point is the operand after it. -/
def readExtension (D : DbWireDecoder) (opcode : UInt8) : Option DbWireDecoder :=
  if hasFlag opcode WOP_EXTENSION then do
    let (entry, D) ← D.nextOp ops
    some { D with operand2 := entry.2, opcode := .POINT_EXT }
  else some { D with opcode := .POINT }

/-- The switch of `next` on an entry that was read. -/
def decodeEntry (D : DbWireDecoder) (opcode : UInt8) : Option (Pass DbWireDecoder) :=
  match WireOp.ofOpcode opcode with
  | some .WOP_PATH => some (.ret { D.startPath opcode with opcode := .PATH })
  | some .WOP_SHORT => do
      let (entry, D) ← (D.startPath opcode).nextOp ops
      some (.ret { D with operand2 := entry.2, opcode := .SHORT })
  | some .WOP_VWIRE => do
      let (entry, D) ← (D.startPath opcode).nextOp ops
      some (.ret { D with operand2 := entry.2, opcode := .VWIRE })
  | some .WOP_JUNCTION =>
      match D.operand with
      | .negSucc _ => none
      | .ofNat j => do
          let pnt ← getPrevPoint tech ops j true
          some (.ret { D.setWireType opcode with
            layer := pnt.layer, x := pnt.x, y := pnt.y, pointCnt := 0, defaultWidth := true
            opcode := .JUNCTION })
  | some .WOP_RULE =>
      some (.ret { D with
        defaultWidth := false, blockRule := hasFlag opcode WOP_BLOCK_RULE, opcode := .RULE })
  | some .WOP_X =>
      let D := { D with x := D.operand }
      if D.pointCnt = 0 then do
        let D := { D with jctId := D.idx }
        let ((opcode, y), D) ← D.nextOp ops
        let D ← { D with y, pointCnt := 1 }.readExtension ops opcode
        some (.ret D)
      else do
        let D ← { D with pointCnt := D.pointCnt + 1 }.readExtension ops opcode
        some (.ret ({ D with property := 0 }.flushRule ops))
  | some .WOP_Y =>
      if D.pointCnt = 0 then none
      else do
        let D ← { D with pointCnt := D.pointCnt + 1, y := D.operand }.readExtension ops opcode
        some (.ret ({ D with property := 0 }.flushRule ops))
  | some .WOP_COLINEAR =>
      let D := { D with pointCnt := D.pointCnt + 1 }
      let D :=
        if hasFlag opcode WOP_EXTENSION then { D with operand2 := D.operand, opcode := .POINT_EXT }
        else { D with opcode := .POINT }
      some (.ret ({ D with property := 0 }.flushRule ops))
  | some .WOP_VIA =>
      some (.ret { D with layer := (tech.getVia D.operand.toNat).exitLayer opcode, opcode := .VIA })
  | some .WOP_TECH_VIA =>
      some (.ret { D with
        layer := (tech.getTechVia D.operand.toNat).exitLayer opcode, opcode := .TECH_VIA })
  | some .WOP_RECT => do
      let (deltaY1, D) ← { D with deltaX1 := D.operand }.nextOp ops
      let (deltaX2, D) ← { D with deltaY1 := deltaY1.2 }.nextOp ops
      let (deltaY2, D) ← { D with deltaX2 := deltaX2.2 }.nextOp ops
      some (.ret { D with deltaY2 := deltaY2.2, opcode := .RECT })
  | some .WOP_ITERM => some (.ret { D with opcode := .ITERM })
  | some .WOP_BTERM => some (.ret { D with opcode := .BTERM })
  | some .WOP_PROPERTY | some .WOP_NOP => some (.goto D)
  | some .WOP_COLOR =>
      let color := UInt8.ofInt D.operand
      some (.goto { D with color := if color = 0 then none else some color })
  | some .WOP_VIACOLOR =>
      let viacolor := UInt8.ofInt D.operand
      some (.goto { D with
        viacolor :=
          if viacolor = 0 then none
          else some ⟨(viacolor &&& 0x30) >>> 4, (viacolor &&& 0x0c) >>> 2, viacolor &&& 0x03⟩ })
  | some .WOP_OPERAND | none => none

/-- One pass of `next`: an entry is read and decoded. -/
def pass (D : DbWireDecoder) : Option (Pass DbWireDecoder) := do
  let (entry, D) ← { D with jctId := D.idx }.nextOp ops
  { D with operand := entry.2 }.decodeEntry tech ops entry.1

end DbWireDecoder

/-! ### Elements -/

/-- An element of a wire: a path start with its layer and wire type, a rule, a point or a via with
its junction id, a rect, or a term. -/
inductive WireElement where
  | path (layer : Nat) (type : DbWireType)
  | junction (jct : Int) (layer : Nat) (type : DbWireType)
  | short (jct : Int) (layer : Nat) (type : DbWireType)
  | vwire (jct : Int) (layer : Nat) (type : DbWireType)
  | rule (isBlockRule : Bool) (oid : Nat)
  | point (x y : Int) (jctId : Int)
  | pointExt (x y ext : Int) (jctId : Int)
  | via (via layer : Nat) (jctId : Int)
  | techVia (via layer : Nat) (jctId : Int)
  | rect (deltaX1 deltaY1 deltaX2 deltaY2 : Int)
  | iterm (iterm : Nat)
  | bterm (bterm : Nat)
  | endDecode
  deriving DecidableEq

namespace DbWireDecoder

/-- What the getters of the opcode return: `getLayer`, `getWireType`, `getJunctionValue`, `getRule`,
`getPoint`, `getJunctionId`, `getVia`, `getTechVia`, `getRect`, `getITerm`, `getBTerm`. -/
def element (D : DbWireDecoder) : WireElement :=
  match D.opcode with
  | .PATH => .path D.layer D.wireType
  | .JUNCTION => .junction D.operand D.layer D.wireType
  | .SHORT => .short D.operand2 D.layer D.wireType
  | .VWIRE => .vwire D.operand2 D.layer D.wireType
  | .RULE => .rule D.blockRule D.operand.toNat
  | .POINT => .point D.x D.y D.jctId
  | .POINT_EXT => .pointExt D.x D.y D.operand2 D.jctId
  | .VIA => .via D.operand.toNat D.layer D.jctId
  | .TECH_VIA => .techVia D.operand.toNat D.layer D.jctId
  | .RECT => .rect D.deltaX1 D.deltaY1 D.deltaX2 D.deltaY2
  | .ITERM => .iterm D.operand.toNat
  | .BTERM => .bterm D.operand.toNat
  | .END_DECODE => .endDecode

/-- The decoder as a scanner of the entries of a wire. -/
def scanner (tech : DbTech) (ops : List WireEntry) : Scanner DbWireDecoder WireElement where
  left D := ops.length - D.idx
  pass := pass tech ops
  read := element

/-- A fresh decoder reads a wire up to its end. -/
def decode (tech : DbTech) (ops : List WireEntry) : Option (List WireElement) :=
  (scanner tech ops).collect (ops.length + 1) {}

end DbWireDecoder

end OpenRoad.Db
