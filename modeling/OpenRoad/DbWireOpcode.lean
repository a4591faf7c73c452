import OpenRoad.DbGeometry

/-!
The opcodes of a `dbWire` and the walk back to the point before an entry (`getPrevPoint`). A wire
holds two vectors of equal length, `_opcodes` and `_data`; they are one list of entries here. The
low five bits of an opcode say what the entry is, the others are flags whose meaning depends on it.
-/

namespace OpenRoad.Db

/-- What an entry of a wire is. -/
inductive WireOp where
  | WOP_PATH | WOP_SHORT | WOP_JUNCTION | WOP_RULE | WOP_X | WOP_Y | WOP_COLINEAR | WOP_VIA
  | WOP_TECH_VIA | WOP_ITERM | WOP_BTERM | WOP_OPERAND | WOP_PROPERTY | WOP_VWIRE | WOP_RECT
  | WOP_NOP | WOP_COLOR | WOP_VIACOLOR
  deriving DecidableEq

namespace WireOp

def code : WireOp → UInt8
  | WOP_PATH => 0
  | WOP_SHORT => 1
  | WOP_JUNCTION => 2
  | WOP_RULE => 3
  | WOP_X => 4
  | WOP_Y => 5
  | WOP_COLINEAR => 6
  | WOP_VIA => 7
  | WOP_TECH_VIA => 8
  | WOP_ITERM => 9
  | WOP_BTERM => 10
  | WOP_OPERAND => 11
  | WOP_PROPERTY => 12
  | WOP_VWIRE => 13
  | WOP_RECT => 14
  | WOP_NOP => 15
  | WOP_COLOR => 16
  | WOP_VIACOLOR => 17

def WOP_OPCODE_MASK : UInt8 := 0x1F

/-- `switch (opcode & WOP_OPCODE_MASK)` -/
def ofOpcode (opcode : UInt8) : Option WireOp :=
  match (opcode &&& WOP_OPCODE_MASK).toNat with
  | 0 => some WOP_PATH
  | 1 => some WOP_SHORT
  | 2 => some WOP_JUNCTION
  | 3 => some WOP_RULE
  | 4 => some WOP_X
  | 5 => some WOP_Y
  | 6 => some WOP_COLINEAR
  | 7 => some WOP_VIA
  | 8 => some WOP_TECH_VIA
  | 9 => some WOP_ITERM
  | 10 => some WOP_BTERM
  | 11 => some WOP_OPERAND
  | 12 => some WOP_PROPERTY
  | 13 => some WOP_VWIRE
  | 14 => some WOP_RECT
  | 15 => some WOP_NOP
  | 16 => some WOP_COLOR
  | 17 => some WOP_VIACOLOR
  | _ => none

end WireOp

/-! ### Flags -/

def WOP_VIA_EXIT_TOP : UInt8 := 0x80
def WOP_DEFAULT_WIDTH : UInt8 := 0x40
def WOP_EXTENSION : UInt8 := 0x80
def WOP_BLOCK_RULE : UInt8 := 0x80
def WOP_WIRE_TYPE_MASK : UInt8 := 0xE0
def WOP_NONE : UInt8 := 0x00
def WOP_COVER : UInt8 := 0x20
def WOP_FIXED : UInt8 := 0x40
def WOP_ROUTED : UInt8 := 0x60
def WOP_NOSHIELD : UInt8 := 0x80

/-- Count of points before a rule is inserted again. -/
def WOP_NON_DEFAULT_WIDTH_POINT_CNT : Nat := 16

/-- `opcode & flag` -/
def hasFlag (opcode flag : UInt8) : Bool := opcode &&& flag ≠ 0

/-- Bits outside of the mask are flags: they do not change what the entry is. -/
theorem WireOp.ofOpcode_or (op : WireOp) {flags : UInt8} (hflags : flags &&& WOP_OPCODE_MASK = 0) :
    WireOp.ofOpcode (op.code ||| flags) = some op := by
  have hmask : (op.code ||| flags) &&& WOP_OPCODE_MASK = op.code := by
    have hdistrib : (op.code ||| flags) &&& WOP_OPCODE_MASK =
        (op.code &&& WOP_OPCODE_MASK) ||| (flags &&& WOP_OPCODE_MASK) := by
      apply UInt8.toBitVec_inj.mp
      simpa only [UInt8.toBitVec_and, UInt8.toBitVec_or] using BitVec.and_or_distrib_right
    rw [hdistrib, hflags, UInt8.or_zero]
    cases op <;> decide
  rw [ofOpcode, hmask]
  cases op <;> rfl

@[simp] theorem WireOp.ofOpcode_code (op : WireOp) : WireOp.ofOpcode op.code = some op := by
  cases op <;> decide

/-! ### The technology -/

/-- `dbTechLayerDir` -/
inductive DbTechLayerDir where
  | NONE | HORIZONTAL | VERTICAL
  deriving DecidableEq

structure DbTechLayer where
  width : Nat
  wrongWayWidth : Nat
  direction : DbTechLayerDir

/-- A `dbVia` or `dbTechVia`: its layers, and the box of a via that has one. -/
structure DbVia where
  topLayer : Nat
  bottomLayer : Nat
  bbox : Option Rect

/-- What the wires read of the technology and the block, by the ids the entries hold. The id 0 is
the null pointer. -/
structure DbTech where
  getTechLayer : Nat → DbTechLayer
  getVia : Nat → DbVia
  getTechVia : Nat → DbVia
  /-- The width of a rule of the block. -/
  blockRuleWidth : Nat → Nat
  /-- The width of a rule of the technology. -/
  techRuleWidth : Nat → Nat

/-- The layer on which the path goes on after a via. -/
def DbVia.exitLayer (via : DbVia) (opcode : UInt8) : Nat :=
  if hasFlag opcode WOP_VIA_EXIT_TOP then via.topLayer else via.bottomLayer

/-! ### The walk back -/

/-- An opcode with its datum. -/
abbrev WireEntry := UInt8 × Int

structure WirePoint where
  x : Int := 0
  y : Int := 0
  layer : Nat := 0
  deriving DecidableEq

/-- What `getPrevPoint` still looks for, and what it found. -/
structure PrevPoint where
  lookForX : Bool
  lookForY : Bool
  getLayer : Bool
  pnt : WirePoint
  deriving DecidableEq

namespace PrevPoint

/-- The walk returns when nothing is left to look for. -/
def found (w : PrevPoint) : Bool := !w.lookForX && !w.lookForY && !w.getLayer

/-- What one entry contributes. -/
def visit (tech : DbTech) (w : PrevPoint) (entry : WireEntry) : PrevPoint :=
  match WireOp.ofOpcode entry.1 with
  | some .WOP_PATH | some .WOP_SHORT =>
      if w.getLayer then
        { w with pnt := { w.pnt with layer := entry.2.toNat }, getLayer := false }
      else w
  | some .WOP_X =>
      if w.lookForX then { w with pnt := { w.pnt with x := entry.2 }, lookForX := false } else w
  | some .WOP_Y =>
      if w.lookForY then { w with pnt := { w.pnt with y := entry.2 }, lookForY := false } else w
  | some .WOP_VIA =>
      if w.getLayer then
        { w with
          pnt := { w.pnt with layer := (tech.getVia entry.2.toNat).exitLayer entry.1 }
          getLayer := false }
      else w
  | some .WOP_TECH_VIA =>
      if w.getLayer then
        { w with
          pnt := { w.pnt with layer := (tech.getTechVia entry.2.toNat).exitLayer entry.1 }
          getLayer := false }
      else w
  | _ => w

end PrevPoint

/-- The entry the walk visits next: a junction continues at the entry it names, any other entry at
the one before it. -/
def prevIdx (entry : WireEntry) (idx : Nat) : Option Nat :=
  if WireOp.ofOpcode entry.1 = some .WOP_JUNCTION then
    match entry.2 with
    | .ofNat j => some j
    | .negSucc _ => none
  else
    match idx with
    | 0 => none
    | i + 1 => some i

/-- The loop of `getPrevPoint`; `none` when the assertion `idx >= 0` fails. -/
def prevPointLoop (tech : DbTech) (ops : List WireEntry) :
    Nat → Nat → PrevPoint → Option WirePoint
  | 0, _, _ => none
  | fuel + 1, idx, w =>
      match ops[idx]? with
      | none => none
      | some entry =>
          let w' := w.visit tech entry
          if w'.found then some w'.pnt
          else
            match prevIdx entry idx with
            | none => none
            | some i => prevPointLoop tech ops fuel i w'

/-- The junctions of a wire name earlier entries, so the walk from `idx` takes at most `idx + 1`
steps. -/
def getPrevPoint (tech : DbTech) (ops : List WireEntry) (idx : Nat) (getLayer : Bool) :
    Option WirePoint :=
  prevPointLoop tech ops (idx + 1) idx ⟨true, true, getLayer, {}⟩

/-- The junctions name earlier entries. -/
def BackwardJunctions (ops : List WireEntry) : Prop :=
  ∀ i entry, ops[i]? = some entry → WireOp.ofOpcode entry.1 = some .WOP_JUNCTION →
    ∃ j : Nat, entry.2 = (j : Int) ∧ j < i

/-- From every entry the walk visits an earlier one next. -/
theorem BackwardJunctions.prevIdx_lt {ops : List WireEntry} (h : BackwardJunctions ops) {idx : Nat}
    {entry : WireEntry} (hentry : ops[idx]? = some entry) {i : Nat}
    (hi : prevIdx entry idx = some i) : i < idx := by
  unfold prevIdx at hi
  split at hi
  · rename_i hjunction
    obtain ⟨j, hj, hlt⟩ := h idx entry hentry hjunction
    rw [hj] at hi
    change some j = some i at hi
    cases hi
    exact hlt
  · cases idx with
    | zero => cases hi
    | succ k =>
        cases hi
        exact Nat.lt_succ_self _

/-- The walk sees no entry after the one it starts at. -/
theorem prevPointLoop_append (tech : DbTech) {ops : List WireEntry} (hback : BackwardJunctions ops)
    (rest : List WireEntry) (fuel : Nat) {idx : Nat} (hidx : idx < ops.length) (w : PrevPoint) :
    prevPointLoop tech (ops ++ rest) fuel idx w = prevPointLoop tech ops fuel idx w := by
  induction fuel generalizing idx w with
  | zero => rfl
  | succ fuel ih =>
      have hentry : ops[idx]? = some ops[idx] := List.getElem?_eq_getElem hidx
      simp only [prevPointLoop, List.getElem?_append_left hidx, hentry]
      split
      · rfl
      · cases hi : prevIdx ops[idx] idx with
        | none => rfl
        | some i =>
            have hlt := hback.prevIdx_lt hentry hi
            exact ih (by omega) _

theorem getPrevPoint_append (tech : DbTech) {ops : List WireEntry} (hback : BackwardJunctions ops)
    (rest : List WireEntry) {idx : Nat} (hidx : idx < ops.length) (getLayer : Bool) :
    getPrevPoint tech (ops ++ rest) idx getLayer = getPrevPoint tech ops idx getLayer :=
  prevPointLoop_append tech hback rest _ hidx _

end OpenRoad.Db
