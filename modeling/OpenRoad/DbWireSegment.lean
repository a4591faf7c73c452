import OpenRoad.DbWireOpcode

/-!
`dbWire::getSegment`. A state machine walks back from a point until x and y of both ends of the segment
are known; a second loop goes on to the width and to the layer. The overload that is given the layer is
a copy of the other one with the layer left out.
-/

namespace OpenRoad.Db
open WireOp

/-! ### The tables of the state machine -/

/-- The columns of the tables. -/
inductive CoordInput where
  | XInput | YInput | CInput
  deriving DecidableEq

inductive Coord where
  | XCoord | YCoord | None
  deriving DecidableEq

/-- The entry of a row in the column of the input. -/
def CoordInput.pick {α : Type} (row : α × α × α) : CoordInput → α
  | XInput => row.1
  | YInput => row.2.1
  | CInput => row.2.2

def nextState : List (Nat × Nat × Nat) :=
  [(1, 2, 3), (4, 5, 6), (7, 8, 9), (10, 11, 12), (4, 13, 4), (13, 5, 5), (4, 5, 6), (7, 13, 7),
    (13, 8, 8), (7, 8, 9), (10, 13, 10), (13, 11, 11), (10, 11, 12)]

def curCoord : List (Coord × Coord × Coord) :=
  [(.None, .None, .None), (.XCoord, .YCoord, .None), (.XCoord, .YCoord, .None),
    (.XCoord, .YCoord, .None), (.None, .YCoord, .None), (.XCoord, .None, .None),
    (.XCoord, .YCoord, .None), (.None, .YCoord, .None), (.XCoord, .None, .None),
    (.XCoord, .YCoord, .None), (.None, .YCoord, .None), (.XCoord, .None, .None),
    (.XCoord, .YCoord, .None)]

def prevCoord : List (Coord × Coord × Coord) :=
  [(.XCoord, .YCoord, .None), (.None, .YCoord, .None), (.XCoord, .None, .None),
    (.XCoord, .YCoord, .None), (.None, .YCoord, .None), (.None, .None, .None),
    (.None, .YCoord, .None), (.None, .None, .None), (.XCoord, .None, .None),
    (.XCoord, .None, .None), (.None, .YCoord, .None), (.XCoord, .None, .None),
    (.XCoord, .YCoord, .None)]

/-- What an entry is to the state machine. -/
def coordInput (entry : WireEntry) : Option CoordInput :=
  match WireOp.ofOpcode entry.1 with
  | some WOP_X => some .XInput
  | some WOP_Y => some .YInput
  | some WOP_COLINEAR => some .CInput
  | _ => none

/-- The state after an input; in state 13 both points are known. -/
def CoordInput.next (input : CoordInput) (state : Nat) : Nat :=
  input.pick (nextState.getD state (13, 13, 13))

/-- Set the coordinate of a point; the third one is not used. -/
def Coord.assign (coord : Coord) (pnt : Int × Int) (value : Int) : Int × Int :=
  match coord with
  | XCoord => (value, pnt.2)
  | YCoord => (pnt.1, value)
  | None => pnt

/-! ### The walk -/

/-- The variables of `getSegment`; no layer is the null pointer. The coordinates, which the source does
not initialise, are all assigned when state 13 is reached. -/
structure SegmentWalk where
  state : Nat := 0
  cur : Int × Int := (0, 0)
  prev : Int × Int := (0, 0)
  curExt : Int := 0
  prevExt : Int := 0
  hasPrevExt : Bool := false
  hasCurExt : Bool := false
  ignoreExt : Bool := false
  width : Nat := 0
  foundWidth : Bool := false
  defaultWidth : Bool := false
  layer : Option Nat := none
  deriving DecidableEq

/-- The width of the rule that an entry names. -/
def ruleWidth (tech : DbTech) (entry : WireEntry) : Nat :=
  if hasFlag entry.1 WOP_BLOCK_RULE then tech.blockRuleWidth entry.2.toNat
  else tech.techRuleWidth entry.2.toNat

/-- `_data[idx + 1]`, the extension of the point at `idx`. What lies behind the last entry is not
defined; both overloads read the same there. -/
def extAt (ops : List WireEntry) (idx : Nat) : Int := ((ops[idx + 1]?).map Prod.snd).getD 0

namespace SegmentWalk

variable (tech : DbTech) (ops : List WireEntry)

/-- The part of `state_machine_update` that reads the flags. -/
def readFlags (w : SegmentWalk) (idx : Nat) (entry : WireEntry) : SegmentWalk :=
  if w.state = 0 then
    let w := if hasFlag entry.1 WOP_DEFAULT_WIDTH then
      { w with foundWidth := true, defaultWidth := true } else w
    if hasFlag entry.1 WOP_EXTENSION then { w with prevExt := extAt ops idx, hasPrevExt := true } else w
  else if w.state ≤ 3 ∧ hasFlag entry.1 WOP_EXTENSION ∧ w.ignoreExt = false then
    { w with curExt := extAt ops idx, hasCurExt := true }
  else w

/-- `state_machine_update` -/
def update (w : SegmentWalk) (idx : Nat) (entry : WireEntry) (input : CoordInput) : SegmentWalk :=
  let w := w.readFlags ops idx entry
  { w with
    cur := (input.pick (curCoord.getD w.state (.None, .None, .None))).assign w.cur entry.2
    prev := (input.pick (prevCoord.getD w.state (.None, .None, .None))).assign w.prev entry.2
    state := input.next w.state }

/-- The first rule gives the width. -/
def firstRule (w : SegmentWalk) (entry : WireEntry) : SegmentWalk :=
  if w.foundWidth then w else { w with foundWidth := true, width := ruleWidth tech entry }

/-- The first layer is kept. -/
def firstLayer (w : SegmentWalk) (layer : Nat) : SegmentWalk :=
  if w.layer = none then { w with layer := some layer } else w

/-- An entry in the first loop of `getSegment(shape_id, shape)`. -/
def visit (w : SegmentWalk) (idx : Nat) (entry : WireEntry) : SegmentWalk :=
  match WireOp.ofOpcode entry.1 with
  | some .WOP_JUNCTION => { w with ignoreExt := true }
  | some .WOP_RULE => w.firstRule tech entry
  | some .WOP_X => w.update ops idx entry .XInput
  | some .WOP_Y => w.update ops idx entry .YInput
  | some .WOP_COLINEAR => w.update ops idx entry .CInput
  | some .WOP_VIA =>
      { w.firstLayer ((tech.getVia entry.2.toNat).exitLayer entry.1) with ignoreExt := true }
  | some .WOP_TECH_VIA =>
      { w.firstLayer ((tech.getTechVia entry.2.toNat).exitLayer entry.1) with ignoreExt := true }
  | _ => w

/-- An entry in the first loop of `getSegment(shape_id, layer, shape)`. -/
def visitOnLayer (w : SegmentWalk) (idx : Nat) (entry : WireEntry) : SegmentWalk :=
  match WireOp.ofOpcode entry.1 with
  | some .WOP_JUNCTION => { w with ignoreExt := true }
  | some .WOP_RULE => w.firstRule tech entry
  | some .WOP_X => w.update ops idx entry .XInput
  | some .WOP_Y => w.update ops idx entry .YInput
  | some .WOP_COLINEAR => w.update ops idx entry .CInput
  | _ => w

/-- The second loop of `getSegment(shape_id, shape)` ends with the layer and the width. -/
def known (w : SegmentWalk) : Bool := w.layer.isSome && w.foundWidth

/-- An entry in the second loop of `getSegment(shape_id, shape)`. -/
def look (w : SegmentWalk) (_ : Nat) (entry : WireEntry) : SegmentWalk :=
  match WireOp.ofOpcode entry.1 with
  | some .WOP_PATH | some .WOP_SHORT | some .WOP_VWIRE => w.firstLayer entry.2.toNat
  | some .WOP_RULE => { w with foundWidth := true, width := ruleWidth tech entry }
  | some .WOP_VIA => w.firstLayer ((tech.getVia entry.2.toNat).exitLayer entry.1)
  | some .WOP_TECH_VIA => w.firstLayer ((tech.getTechVia entry.2.toNat).exitLayer entry.1)
  | _ => w

/-- An entry in the second loop of `getSegment(shape_id, layer, shape)`. -/
def lookOnLayer (w : SegmentWalk) (_ : Nat) (entry : WireEntry) : SegmentWalk :=
  match WireOp.ofOpcode entry.1 with
  | some .WOP_RULE => { w with foundWidth := true, width := ruleWidth tech entry }
  | _ => w

end SegmentWalk

/-- Walk back entry by entry until `stop` holds, at most `fuel` times; `none` where the assertion
`idx >= 0` fails. -/
def walkUntil {σ : Type} (stop : σ → Bool) (step : σ → Nat → WireEntry → σ) (ops : List WireEntry) :
    Nat → σ → Option Nat → Option (σ × Option Nat)
  | 0, _, _ => none
  | fuel + 1, w, idx =>
      if stop w then some (w, idx)
      else
        match idx with
        | none => none
        | some i =>
            match ops[i]? with
            | none => none
            | some entry => walkUntil stop step ops fuel (step w i entry) (prevIdx entry i)

/-! ### The segment -/

/-- The arguments of `dbShape::setSegment`. -/
structure DbSegment where
  prev : Int × Int
  prevExt : Int
  hasPrevExt : Bool
  cur : Int × Int
  curExt : Int
  hasCurExt : Bool
  dw : Nat
  defaultExt : Nat
  layer : Nat
  deriving DecidableEq

namespace SegmentWalk

variable (tech : DbTech)

/-- Half of the default width; against the direction of the layer it is another one. -/
def defaultHalf (w : SegmentWalk) (layer : DbTechLayer) : Nat :=
  if w.prev.1 ≠ w.cur.1 ∨ w.prev.2 ≠ w.cur.2 then
    if w.prev.1 ≠ w.cur.1 ∧ layer.direction = .VERTICAL then layer.wrongWayWidth / 2
    else if w.prev.2 ≠ w.cur.2 ∧ layer.direction = .HORIZONTAL then layer.wrongWayWidth / 2
    else layer.width / 2
  else layer.width / 2

/-- The end of `getSegment`. -/
def segment (w : SegmentWalk) (layer : Nat) : DbSegment where
  prev := w.prev
  prevExt := w.prevExt
  hasPrevExt := w.hasPrevExt
  cur := w.cur
  curExt := w.curExt
  hasCurExt := w.hasCurExt
  dw := if w.defaultWidth then w.defaultHalf (tech.getTechLayer layer) else w.width / 2
  defaultExt := if w.defaultWidth then (tech.getTechLayer layer).width / 2 else w.width / 2
  layer := layer

end SegmentWalk

/-- `getSegment(shape_id, shape)` -/
def getSegment (tech : DbTech) (ops : List WireEntry) (shapeId : Nat) : Option DbSegment := do
  let (w, idx) ← walkUntil (fun w => w.state == 13) (SegmentWalk.visit tech ops) ops (shapeId + 2) {}
    (some shapeId)
  let (w, _) ← walkUntil SegmentWalk.known (SegmentWalk.look tech) ops (ops.length + 1) w idx
  let layer ← w.layer
  pure (w.segment tech layer)

/-- `getSegment(shape_id, layer, shape)` -/
def getSegmentOnLayer (tech : DbTech) (ops : List WireEntry) (shapeId layer : Nat) :
    Option DbSegment := do
  let (w, idx) ← walkUntil (fun w => w.state == 13) (SegmentWalk.visitOnLayer tech ops) ops
    (shapeId + 2) {} (some shapeId)
  let (w, _) ← walkUntil (fun w => w.foundWidth) (SegmentWalk.lookOnLayer tech) ops (ops.length + 1) w
    idx
  pure (w.segment tech layer)

end OpenRoad.Db
