import OpenRoad.DbWireCall
import OpenRoad.DbWireDecoder

/-!
Decoding a wire yields the elements it was encoded from. The decoder follows the encoder: between
two calls it is at the same entry and the same point, and its point counter is zero exactly when that
of the encoder is. The two walks to a junction see the same entries, since junctions name earlier
ones.
-/

namespace OpenRoad.Db

open WireOp

/-- The wire type as it is encoded: there is no code for `SHIELD`. -/
def DbWireType.stored : DbWireType → DbWireType
  | .SHIELD => .NONE
  | type => type

/-- A point with or without an extension. -/
def pointElement (ext : Option Int) (x y : Int) (jctId : Int) : WireElement :=
  match ext with
  | none => .point x y jctId
  | some ext => .pointExt x y ext jctId

namespace DbWireDecoder

variable (tech : DbTech) {ops : List WireEntry}

/-! ### Single reads -/

theorem nextOp_at {D : DbWireDecoder} {entry : WireEntry} {rest : List WireEntry}
    (h : ops.drop D.idx = entry :: rest) :
    D.nextOp ops = some (entry, { D with idx := D.idx + 1 }) := by
  have hentry : ops[D.idx]? = some entry := by
    rw [← List.head?_drop, h, List.head?_cons]
  rw [nextOp, hentry]

theorem drop_succ {n : Nat} {entry : WireEntry} {rest : List WireEntry}
    (h : ops.drop n = entry :: rest) : ops.drop (n + 1) = rest := by
  rw [← List.drop_drop, h]
  rfl

theorem lt_length_of_drop {n : Nat} {entry : WireEntry} {rest : List WireEntry}
    (h : ops.drop n = entry :: rest) : n < ops.length := by
  have hlen := congrArg List.length h
  rw [List.length_drop, List.length_cons] at hlen
  omega

/-- The entries that follow do not start with a rule. -/
def NoRule (rest : List WireEntry) : Prop :=
  ∀ entry ∈ rest.head?, WireOp.ofOpcode entry.1 ≠ some WOP_RULE

/-- The rule inserted after a point, if there is one, is all that is flushed. -/
structure Flushed (rule rest : List WireEntry) : Prop where
  isRule : ∀ entry ∈ rule, WireOp.ofOpcode entry.1 = some WOP_RULE
  length_le : rule.length ≤ 1
  noRule : rule = [] → NoRule rest

theorem flushRule_at {D : DbWireDecoder} {rule rest : List WireEntry}
    (h : ops.drop D.idx = rule ++ rest) (hflush : Flushed rule rest) :
    D.flushRule ops = { D with idx := D.idx + rule.length } := by
  unfold flushRule
  rw [← List.head?_drop, h]
  match rule, hflush with
  | [], hflush =>
      have hrest := hflush.noRule rfl
      cases rest with
      | nil => rfl
      | cons entry rest =>
          rw [List.nil_append, List.head?_cons]
          exact if_neg (hrest entry rfl)
  | [entry], hflush => exact if_pos (hflush.isRule entry (List.mem_singleton_self _))
  | _ :: _ :: _, hflush =>
      have hlen := hflush.length_le
      simp at hlen

theorem readExtension_at {D : DbWireDecoder} {opcode : UInt8} {ext : Option Int}
    {rest : List WireEntry} (h : ops.drop D.idx = extEntries ext ++ rest)
    (hflag : hasFlag opcode WOP_EXTENSION = ext.isSome) :
    D.readExtension ops opcode = some { D with
      operand2 := ext.getD D.operand2
      opcode := if ext.isSome then .POINT_EXT else .POINT
      idx := D.idx + (extEntries ext).length } := by
  unfold readExtension
  rw [hflag]
  cases ext with
  | none => rfl
  | some ext =>
      have hnext := nextOp_at h
      rw [Option.isSome_some, if_pos rfl, hnext]
      rfl

/-- The entry is decoded in the state in which it was read. -/
theorem pass_at {D : DbWireDecoder} {entry : WireEntry} {rest : List WireEntry}
    (h : ops.drop D.idx = entry :: rest) :
    pass tech ops D = decodeEntry tech ops
      { D with jctId := D.idx, idx := D.idx + 1, operand := entry.2 } entry.1 := by
  rw [pass, nextOp_at (D := { D with jctId := D.idx }) h]
  rfl

/-! ### Passes over points -/

theorem pass_first {D : DbWireDecoder} {opx opy : UInt8} {x y : Int} {ext : Option Int}
    {rest : List WireEntry} (h : ops.drop D.idx = (opx, x) :: (opy, y) :: (extEntries ext ++ rest))
    (hopx : WireOp.ofOpcode opx = some WOP_X) (hext : hasFlag opy WOP_EXTENSION = ext.isSome)
    (hcnt : D.pointCnt = 0) :
    ∃ D', pass tech ops D = some (.ret D') ∧ D'.idx = D.idx + 2 + (extEntries ext).length ∧
      D'.layer = D.layer ∧ D'.x = x ∧ D'.y = y ∧ D'.pointCnt ≠ 0 ∧
      D'.element = pointElement ext x y (D.idx + 1 : Nat) := by
  have hy := drop_succ h
  have hrest := drop_succ hy
  rw [pass_at tech h]
  simp only [decodeEntry, hopx, hcnt, if_true]
  rw [nextOp_at hy]
  simp only [Option.bind_eq_bind, Option.bind_some]
  rw [readExtension_at hrest hext]
  refine ⟨_, rfl, rfl, rfl, rfl, rfl, Nat.one_ne_zero, ?_⟩
  cases ext <;> rfl

theorem pass_x {D : DbWireDecoder} {op : UInt8} {x : Int} {ext : Option Int}
    {rule rest : List WireEntry} (h : ops.drop D.idx = (op, x) :: (extEntries ext ++ (rule ++ rest)))
    (hop : WireOp.ofOpcode op = some WOP_X) (hext : hasFlag op WOP_EXTENSION = ext.isSome)
    (hcnt : D.pointCnt ≠ 0) (hflush : Flushed rule rest) :
    ∃ D', pass tech ops D = some (.ret D') ∧
      D'.idx = D.idx + 1 + (extEntries ext).length + rule.length ∧
      D'.layer = D.layer ∧ D'.x = x ∧ D'.y = D.y ∧ D'.pointCnt ≠ 0 ∧
      D'.element = pointElement ext x D.y D.idx := by
  have hexts := drop_succ h
  have hrule : ops.drop (D.idx + 1 + (extEntries ext).length) = rule ++ rest := by
    rw [← List.drop_drop, hexts, List.drop_left]
  rw [pass_at tech h]
  simp only [decodeEntry, hop, hcnt, if_false]
  rw [readExtension_at hexts hext]
  simp only [Option.bind_eq_bind, Option.bind_some]
  rw [flushRule_at hrule hflush]
  refine ⟨_, rfl, rfl, rfl, rfl, rfl, Nat.succ_ne_zero _, ?_⟩
  cases ext <;> rfl

theorem pass_y {D : DbWireDecoder} {op : UInt8} {y : Int} {ext : Option Int}
    {rule rest : List WireEntry} (h : ops.drop D.idx = (op, y) :: (extEntries ext ++ (rule ++ rest)))
    (hop : WireOp.ofOpcode op = some WOP_Y) (hext : hasFlag op WOP_EXTENSION = ext.isSome)
    (hcnt : D.pointCnt ≠ 0) (hflush : Flushed rule rest) :
    ∃ D', pass tech ops D = some (.ret D') ∧
      D'.idx = D.idx + 1 + (extEntries ext).length + rule.length ∧
      D'.layer = D.layer ∧ D'.x = D.x ∧ D'.y = y ∧ D'.pointCnt ≠ 0 ∧
      D'.element = pointElement ext D.x y D.idx := by
  have hexts := drop_succ h
  have hrule : ops.drop (D.idx + 1 + (extEntries ext).length) = rule ++ rest := by
    rw [← List.drop_drop, hexts, List.drop_left]
  rw [pass_at tech h]
  simp only [decodeEntry, hop, hcnt, if_false]
  rw [readExtension_at hexts hext]
  simp only [Option.bind_eq_bind, Option.bind_some]
  rw [flushRule_at hrule hflush]
  refine ⟨_, rfl, rfl, rfl, rfl, rfl, Nat.succ_ne_zero _, ?_⟩
  cases ext <;> rfl

theorem pass_colinear {D : DbWireDecoder} {op : UInt8} {ext : Option Int}
    {rule rest : List WireEntry} (h : ops.drop D.idx = (op, ext.getD 0) :: (rule ++ rest))
    (hop : WireOp.ofOpcode op = some WOP_COLINEAR) (hext : hasFlag op WOP_EXTENSION = ext.isSome)
    (hflush : Flushed rule rest) :
    ∃ D', pass tech ops D = some (.ret D') ∧ D'.idx = D.idx + 1 + rule.length ∧
      D'.layer = D.layer ∧ D'.x = D.x ∧ D'.y = D.y ∧ D'.pointCnt ≠ 0 ∧
      D'.element = pointElement ext D.x D.y D.idx := by
  have hrule := drop_succ h
  rw [pass_at tech h]
  simp only [decodeEntry, hop, hext]
  cases ext with
  | none =>
      simp only [Option.isSome_none, Bool.false_eq_true, if_false]
      rw [flushRule_at hrule hflush]
      exact ⟨_, rfl, rfl, rfl, rfl, rfl, Nat.succ_ne_zero _, rfl⟩
  | some ext =>
      simp only [Option.isSome_some, if_true]
      rw [flushRule_at hrule hflush]
      exact ⟨_, rfl, rfl, rfl, rfl, rfl, Nat.succ_ne_zero _, rfl⟩

/-! ### Passes over other entries -/

theorem setWireType_code (D : DbWireDecoder) (op : WireOp) (type : DbWireType) :
    D.setWireType (op.code ||| getWireType type) = { D with wireType := type.stored } := by
  cases op <;> cases type <;> rfl

theorem pass_path {D : DbWireDecoder} {layer : Nat} {type : DbWireType} {rest : List WireEntry}
    (h : ops.drop D.idx = (WOP_PATH.code ||| getWireType type, (layer : Int)) :: rest) :
    ∃ D', pass tech ops D = some (.ret D') ∧ D'.idx = D.idx + 1 ∧ D'.layer = layer ∧
      D'.pointCnt = 0 ∧ D'.element = .path layer type.stored := by
  rw [pass_at tech h]
  simp only [decodeEntry, ofOpcode_or_getWireType, startPath, setWireType_code]
  exact ⟨_, rfl, rfl, rfl, rfl, rfl⟩

theorem pass_short {D : DbWireDecoder} {layer : Nat} {jct : Int} {type : DbWireType}
    {rest : List WireEntry}
    (h : ops.drop D.idx = (WOP_SHORT.code ||| getWireType type, (layer : Int)) ::
      (WOP_OPERAND.code, jct) :: rest) :
    ∃ D', pass tech ops D = some (.ret D') ∧ D'.idx = D.idx + 2 ∧ D'.layer = layer ∧
      D'.pointCnt = 0 ∧ D'.element = .short jct layer type.stored := by
  have hjct := drop_succ h
  rw [pass_at tech h]
  simp only [decodeEntry, ofOpcode_or_getWireType, startPath, setWireType_code]
  rw [nextOp_at hjct]
  exact ⟨_, rfl, rfl, rfl, rfl, rfl⟩

theorem pass_vwire {D : DbWireDecoder} {layer : Nat} {jct : Int} {type : DbWireType}
    {rest : List WireEntry}
    (h : ops.drop D.idx = (WOP_VWIRE.code ||| getWireType type, (layer : Int)) ::
      (WOP_OPERAND.code, jct) :: rest) :
    ∃ D', pass tech ops D = some (.ret D') ∧ D'.idx = D.idx + 2 ∧ D'.layer = layer ∧
      D'.pointCnt = 0 ∧ D'.element = .vwire jct layer type.stored := by
  have hjct := drop_succ h
  rw [pass_at tech h]
  simp only [decodeEntry, ofOpcode_or_getWireType, startPath, setWireType_code]
  rw [nextOp_at hjct]
  exact ⟨_, rfl, rfl, rfl, rfl, rfl⟩

theorem pass_junction {D : DbWireDecoder} {j : Nat} {type : DbWireType} {rest : List WireEntry}
    {pnt : WirePoint} (hpnt : getPrevPoint tech ops j true = some pnt)
    (h : ops.drop D.idx = (WOP_JUNCTION.code ||| getWireType type, (j : Int)) :: rest) :
    ∃ D', pass tech ops D = some (.ret D') ∧ D'.idx = D.idx + 1 ∧ D'.layer = pnt.layer ∧
      D'.x = pnt.x ∧ D'.y = pnt.y ∧ D'.element = .junction j pnt.layer type.stored := by
  rw [pass_at tech h]
  simp only [decodeEntry, ofOpcode_or_getWireType, setWireType_code]
  rw [hpnt]
  exact ⟨_, rfl, rfl, rfl, rfl, rfl, rfl⟩

theorem pass_rule {D : DbWireDecoder} {rule : DbTechLayerRule} {rest : List WireEntry}
    (h : ops.drop D.idx = (rule.opcode, (rule.oid : Int)) :: rest) :
    ∃ D', pass tech ops D = some (.ret D') ∧ D'.idx = D.idx + 1 ∧ D'.layer = D.layer ∧
      D'.x = D.x ∧ D'.y = D.y ∧ D'.pointCnt = D.pointCnt ∧
      D'.element = .rule rule.isBlockRule rule.oid := by
  rw [pass_at tech h]
  simp only [decodeEntry, DbTechLayerRule.ofOpcode_opcode, DbTechLayerRule.hasFlag_opcode]
  exact ⟨_, rfl, rfl, rfl, rfl, rfl, rfl, rfl⟩

theorem pass_via {D : DbWireDecoder} {op : UInt8} {via : Nat} {rest : List WireEntry}
    (h : ops.drop D.idx = (op, (via : Int)) :: rest) (hop : WireOp.ofOpcode op = some WOP_VIA) :
    ∃ D', pass tech ops D = some (.ret D') ∧ D'.idx = D.idx + 1 ∧
      D'.layer = (tech.getVia via).exitLayer op ∧ D'.x = D.x ∧ D'.y = D.y ∧
      D'.pointCnt = D.pointCnt ∧
      D'.element = .via via ((tech.getVia via).exitLayer op) D.idx := by
  rw [pass_at tech h]
  simp only [decodeEntry, hop]
  exact ⟨_, rfl, rfl, rfl, rfl, rfl, rfl, rfl⟩

theorem pass_techVia {D : DbWireDecoder} {op : UInt8} {via : Nat} {rest : List WireEntry}
    (h : ops.drop D.idx = (op, (via : Int)) :: rest) (hop : WireOp.ofOpcode op = some WOP_TECH_VIA) :
    ∃ D', pass tech ops D = some (.ret D') ∧ D'.idx = D.idx + 1 ∧
      D'.layer = (tech.getTechVia via).exitLayer op ∧ D'.x = D.x ∧ D'.y = D.y ∧
      D'.pointCnt = D.pointCnt ∧
      D'.element = .techVia via ((tech.getTechVia via).exitLayer op) D.idx := by
  rw [pass_at tech h]
  simp only [decodeEntry, hop]
  exact ⟨_, rfl, rfl, rfl, rfl, rfl, rfl, rfl⟩

theorem pass_rect {D : DbWireDecoder} {deltaX1 deltaY1 deltaX2 deltaY2 : Int} {rest : List WireEntry}
    (h : ops.drop D.idx = (WOP_RECT.code, deltaX1) :: (WOP_OPERAND.code, deltaY1) ::
      (WOP_OPERAND.code, deltaX2) :: (WOP_OPERAND.code, deltaY2) :: rest) :
    ∃ D', pass tech ops D = some (.ret D') ∧ D'.idx = D.idx + 4 ∧ D'.layer = D.layer ∧
      D'.x = D.x ∧ D'.y = D.y ∧ D'.pointCnt = D.pointCnt ∧
      D'.element = .rect deltaX1 deltaY1 deltaX2 deltaY2 := by
  have h1 := drop_succ h
  have h2 := drop_succ h1
  have h3 := drop_succ h2
  rw [pass_at tech h]
  simp only [decodeEntry, WireOp.ofOpcode_code]
  rw [nextOp_at h1]
  simp only [Option.bind_eq_bind, Option.bind_some]
  rw [nextOp_at h2]
  simp only [Option.bind_some]
  rw [nextOp_at h3]
  exact ⟨_, rfl, rfl, rfl, rfl, rfl, rfl, rfl⟩

theorem pass_iterm {D : DbWireDecoder} {iterm : Nat} {rest : List WireEntry}
    (h : ops.drop D.idx = (WOP_ITERM.code, (iterm : Int)) :: rest) :
    ∃ D', pass tech ops D = some (.ret D') ∧ D'.idx = D.idx + 1 ∧ D'.layer = D.layer ∧
      D'.x = D.x ∧ D'.y = D.y ∧ D'.pointCnt = D.pointCnt ∧ D'.element = .iterm iterm := by
  rw [pass_at tech h]
  simp only [decodeEntry, WireOp.ofOpcode_code]
  exact ⟨_, rfl, rfl, rfl, rfl, rfl, rfl, rfl⟩

theorem pass_bterm {D : DbWireDecoder} {bterm : Nat} {rest : List WireEntry}
    (h : ops.drop D.idx = (WOP_BTERM.code, (bterm : Int)) :: rest) :
    ∃ D', pass tech ops D = some (.ret D') ∧ D'.idx = D.idx + 1 ∧ D'.layer = D.layer ∧
      D'.x = D.x ∧ D'.y = D.y ∧ D'.pointCnt = D.pointCnt ∧ D'.element = .bterm bterm := by
  rw [pass_at tech h]
  simp only [decodeEntry, WireOp.ofOpcode_code]
  exact ⟨_, rfl, rfl, rfl, rfl, rfl, rfl, rfl⟩

/-- Properties and colors do not surface. -/
theorem pass_skip {D : DbWireDecoder} {op : WireOp} {value : Int} {rest : List WireEntry}
    (h : ops.drop D.idx = (op.code, value) :: rest)
    (hop : op = WOP_PROPERTY ∨ op = WOP_COLOR ∨ op = WOP_VIACOLOR) :
    ∃ D', pass tech ops D = some (.goto D') ∧ D'.idx = D.idx + 1 ∧ D'.layer = D.layer ∧
      D'.x = D.x ∧ D'.y = D.y ∧ D'.pointCnt = D.pointCnt := by
  rw [pass_at tech h]
  rcases hop with rfl | rfl | rfl <;> simp only [decodeEntry, WireOp.ofOpcode_code] <;>
    exact ⟨_, rfl, rfl, rfl, rfl, rfl, rfl⟩

end DbWireDecoder

/-! ### Following the encoder -/

namespace EncoderCall

def ruleElements : Option DbTechLayerRule → List WireElement
  | none => []
  | some rule => [.rule rule.isBlockRule rule.oid]

/-- The elements a call adds to the wire. `E` is the encoder after the call, `id` the junction id
the call returned, and `type` the wire type given last. -/
def elements (E : DbWireEncoder) (id : Nat) (type : DbWireType) : EncoderCall → List WireElement
  | .addPoint x y _ => [.point x y id]
  | .addPointExt x y ext _ => [.pointExt x y ext id]
  | .addVia via => [.via via E.layer id]
  | .addTechVia via => [.techVia via E.layer id]
  | .addRect deltaX1 deltaY1 deltaX2 deltaY2 => [.rect deltaX1 deltaY1 deltaX2 deltaY2]
  | .setColor _ | .clearColor | .setViaColor _ _ _ | .clearViaColor => []
  | .addITerm iterm => [.iterm iterm]
  | .addBTerm bterm => [.bterm bterm]
  | .newPath layer type => [.path layer type]
  | .newPathRule layer type rule => .path layer type :: ruleElements (some rule)
  | .newPathShort jctId layer type rule => .short jctId layer type :: ruleElements rule
  | .newPathVirtualWire jctId layer type rule => .vwire jctId layer type :: ruleElements rule
  | .newPathFrom jctId _ rule =>
      .junction jctId E.layer type :: (ruleElements rule ++ [.point E.x E.y (E.idx - 1 : Nat)])
  | .newPathExt jctId ext _ rule =>
      .junction jctId E.layer type :: (ruleElements rule ++ [.pointExt E.x E.y ext (E.idx - 1 : Nat)])

end EncoderCall

namespace WireElement

/-- The element with the wire type as it is encoded. -/
def stored : WireElement → WireElement
  | .path layer type => .path layer type.stored
  | .junction jct layer type => .junction jct layer type.stored
  | .short jct layer type => .short jct layer type.stored
  | .vwire jct layer type => .vwire jct layer type.stored
  | element => element

end WireElement

/-- The decoder has read what the encoder has written. -/
structure Follows (E : DbWireEncoder) (D : DbWireDecoder) : Prop where
  idx : D.idx = E.idx
  point : E.pointCnt ≠ 0 → D.x = E.x ∧ D.y = E.y
  pointCnt : D.pointCnt = 0 ↔ E.pointCnt = 0

namespace Follows

open DbWireDecoder DbWireEncoder

variable (tech : DbTech) {ops rest : List WireEntry} {E : DbWireEncoder} {D : DbWireDecoder}

/-- The entries that come next are those the encoder appends. -/
theorem drop (h : Follows E D) {entries : List WireEntry} (hops : ops = (E.ops ++ entries) ++ rest) :
    ops.drop D.idx = entries ++ rest := by
  rw [hops, h.idx, List.append_assoc]
  exact List.drop_left

theorem reaches {D' : DbWireDecoder} (hpass : pass tech ops D = some (.ret D'))
    (hidx : D.idx < D'.idx) {entry : WireEntry} {more : List WireEntry}
    (hdrop : ops.drop D.idx = entry :: more) :
    (scanner tech ops).Reaches D [D'.element] D' := by
  have hlt := lt_length_of_drop hdrop
  exact Scanner.Reaches.ret hpass (by change ops.length - D'.idx < ops.length - D.idx; omega)

theorem reaches_skip {op : WireOp} {value : Int} {more : List WireEntry}
    (hdrop : ops.drop D.idx = (op.code, value) :: more)
    (hop : op = WOP_PROPERTY ∨ op = WOP_COLOR ∨ op = WOP_VIACOLOR) :
    ∃ D', (scanner tech ops).Reaches D [] D' ∧ D'.idx = D.idx + 1 ∧
      D'.x = D.x ∧ D'.y = D.y ∧ D'.pointCnt = D.pointCnt := by
  obtain ⟨D', hpass, hidx, -, hrest⟩ := pass_skip tech hdrop hop
  have hlt := lt_length_of_drop hdrop
  refine ⟨D', Scanner.Reaches.goto hpass ?_, hidx, hrest⟩
  change ops.length - D'.idx < ops.length - D.idx
  omega

/-- An entry that skips: the encoder only appended it. -/
theorem skip (h : Follows E D) {E' : DbWireEncoder} {op : WireOp} {value : Int}
    (hE : E' = { E with ops := E.ops ++ [(op.code, value)] }) (hops : ops = E'.ops ++ rest)
    (hop : op = WOP_PROPERTY ∨ op = WOP_COLOR ∨ op = WOP_VIACOLOR) :
    ∃ D', (scanner tech ops).Reaches D [] D' ∧ Follows E' D' := by
  subst hE
  obtain ⟨D', hreach, hidx, hx, hy, hcnt⟩ := reaches_skip tech (h.drop hops) hop
  refine ⟨D', hreach, ?_, ?_, by rw [hcnt]; exact h.pointCnt⟩
  · rw [hidx, h.idx]
    simp [DbWireEncoder.idx]
  · rw [hx, hy]
    exact h.point

/-! #### Points -/

theorem insertedRule_length_le (E : DbWireEncoder) : E.insertedRule.length ≤ 1 := by
  unfold insertedRule
  split
  · exact Nat.le_refl 1
  · exact Nat.zero_le 1

theorem flushed_pointEnd {last : DbWireType} (hvalid : E.Valid last) (property : Nat)
    (hrest : NoRule rest) : Flushed E.insertedRule (E.propertyEntries property ++ rest) := by
  refine ⟨hvalid.ofOpcode_insertedRule, insertedRule_length_le E, fun _ => ?_⟩
  unfold propertyEntries
  split
  · intro entry hentry
    cases hentry
    simp
  · exact hrest

/-- The decoder returns the point and flushes the rule after it. -/
theorem pointAdded (h : Follows E D) {E₁ : DbWireEncoder} {x y : Int}
    {ext : Option Int} {id : Nat} (hadd : PointAdded E x y ext E₁ id) {more : List WireEntry}
    (hops : ops = E₁.ops ++ (E₁.insertedRule ++ more)) (hflush : Flushed E₁.insertedRule more) :
    ∃ D₁, (scanner tech ops).Reaches D [pointElement ext x y id] D₁ ∧
      D₁.idx = E₁.idx + E₁.insertedRule.length ∧ D₁.x = E₁.x ∧ D₁.y = E₁.y ∧ D₁.pointCnt ≠ 0 := by
  cases hadd with
  | first hcnt =>
      have hnil : ({ E with
          ops := E.ops ++ (E.pointOp WOP_X none, x) :: (E.pointOp WOP_Y ext, y) :: extEntries ext
          x, y, pointCnt := 1 } : DbWireEncoder).insertedRule = [] := by
        have hone : ¬(1 &&& (WOP_NON_DEFAULT_WIDTH_POINT_CNT - 1) = 0) := by decide
        exact if_neg fun hcond => hone hcond.2.2
      rw [hnil] at hops ⊢
      have hdrop := h.drop hops
      obtain ⟨D₁, hpass, hidx, -, hx, hy, hpos, helem⟩ :=
        pass_first tech (D := D) (by simpa using hdrop) (E.ofOpcode_pointOp _ _)
          (E.hasFlag_pointOp WOP_Y ext) (h.pointCnt.mpr hcnt)
      refine ⟨D₁, ?_, ?_, hx, hy, hpos⟩
      · have hreach := reaches tech hpass (by omega) hdrop
        rwa [helem, h.idx] at hreach
      · rw [hidx, h.idx]
        simp [DbWireEncoder.idx]
        omega
  | colinear hcnt hx hy hrule =>
      have hdrop := h.drop hops
      obtain ⟨hDx, hDy⟩ := h.point hcnt
      obtain ⟨D₁, hpass, hidx, -, hx', hy', hpos, helem⟩ :=
        pass_colinear tech (D := D) (by simpa using hdrop) (E.ofOpcode_pointOp _ _)
          (E.hasFlag_pointOp WOP_COLINEAR ext) hflush
      refine ⟨D₁, ?_, ?_, hx'.trans hDx, hy'.trans hDy, hpos⟩
      · have hreach := reaches tech hpass (by omega) hdrop
        rwa [helem, h.idx, hDx, hDy, hx, hy] at hreach
      · rw [hidx, h.idx]
        simp [DbWireEncoder.idx]
  | horizontal hcnt hx hy =>
      have hdrop := h.drop hops
      obtain ⟨hDx, hDy⟩ := h.point hcnt
      obtain ⟨D₁, hpass, hidx, -, hx', hy', hpos, helem⟩ :=
        pass_x tech (D := D) (by simpa using hdrop) (E.ofOpcode_pointOp _ _)
          (E.hasFlag_pointOp WOP_X ext) (fun h0 => hcnt (h.pointCnt.mp h0)) hflush
      refine ⟨D₁, ?_, ?_, hx', hy'.trans hDy, hpos⟩
      · have hreach := reaches tech hpass (by omega) hdrop
        rwa [helem, h.idx, hDy, hy] at hreach
      · rw [hidx, h.idx]
        simp [DbWireEncoder.idx]
        omega
  | vertical hcnt hx hy =>
      have hdrop := h.drop hops
      obtain ⟨hDx, hDy⟩ := h.point hcnt
      obtain ⟨D₁, hpass, hidx, -, hx', hy', hpos, helem⟩ :=
        pass_y tech (D := D) (by simpa using hdrop) (E.ofOpcode_pointOp _ _)
          (E.hasFlag_pointOp WOP_Y ext) (fun h0 => hcnt (h.pointCnt.mp h0)) hflush
      refine ⟨D₁, ?_, ?_, hx'.trans hDx, hy', hpos⟩
      · have hreach := reaches tech hpass (by omega) hdrop
        rwa [helem, h.idx, hDx, hx] at hreach
      · rw [hidx, h.idx]
        simp [DbWireEncoder.idx]
        omega

theorem pointCnt_ne_zero {E₁ : DbWireEncoder} {x y : Int} {ext : Option Int} {id : Nat}
    (hadd : PointAdded E x y ext E₁ id) : E₁.pointCnt ≠ 0 := by
  cases hadd with
  | first hcnt => exact Nat.one_ne_zero
  | colinear hcnt hx hy hrule => exact hcnt
  | horizontal hcnt hx hy => exact Nat.succ_ne_zero _
  | vertical hcnt hx hy => exact Nat.succ_ne_zero _

theorem pointEnd {last : DbWireType} (h : Follows E D) (hvalid : E.Valid last) {E₁ : DbWireEncoder}
    {x y : Int} {ext : Option Int} {id property : Nat} {prevExt : Bool}
    (hadd : PointAdded E x y ext E₁ id) (hops : ops = (E₁.pointEnd property prevExt).ops ++ rest)
    (hrest : NoRule rest) :
    ∃ D', (scanner tech ops).Reaches D [pointElement ext x y id] D' ∧
      Follows (E₁.pointEnd property prevExt) D' := by
  obtain ⟨-, -, -, hvalid₁⟩ := hvalid.pointAdded hadd
  have hops₁ : ops = E₁.ops ++ (E₁.insertedRule ++ (E₁.propertyEntries property ++ rest)) := by
    rw [hops, DbWireEncoder.pointEnd]
    simp only [List.append_assoc]
  obtain ⟨D₁, hreach, hidx, hx, hy, hpos⟩ :=
    h.pointAdded tech hadd hops₁ (flushed_pointEnd hvalid₁ property hrest)
  have hcnt := pointCnt_ne_zero hadd
  have hend : ∀ D' : DbWireDecoder, D'.idx = (E₁.pointEnd property prevExt).idx →
      D'.x = D₁.x → D'.y = D₁.y → D'.pointCnt = D₁.pointCnt →
      Follows (E₁.pointEnd property prevExt) D' := by
    intro D' hidx' hx' hy' hcnt'
    refine ⟨hidx', fun _ => ⟨hx'.trans hx, hy'.trans hy⟩, ?_⟩
    exact iff_of_false (by rw [hcnt']; exact hpos) hcnt
  by_cases hone : E₁.pointCnt = 1
  · have hnone : E₁.propertyEntries property = [] := if_neg (fun hne => hne hone)
    refine ⟨D₁, hreach, hend D₁ ?_ rfl rfl rfl⟩
    rw [hidx, DbWireEncoder.pointEnd, hnone]
    simp [DbWireEncoder.idx]
  · have hprop : E₁.propertyEntries property = [(WOP_PROPERTY.code, (property : Int))] := if_pos hone
    have hdrop : ops.drop D₁.idx = (WOP_PROPERTY.code, (property : Int)) :: rest := by
      rw [hops₁, hprop, hidx, ← List.append_assoc]
      exact List.drop_left' (by simp [DbWireEncoder.idx])
    obtain ⟨D', hskip, hidx', hx', hy', hcnt'⟩ :=
      reaches_skip tech hdrop (Or.inl rfl)
    refine ⟨D', hreach.trans hskip, hend D' ?_ hx' hy' hcnt'⟩
    rw [hidx', hidx, DbWireEncoder.pointEnd, hprop]
    simp [DbWireEncoder.idx]
    omega

/-! #### Path starts -/

theorem reaches_rule {rule : Option DbTechLayerRule} {more : List WireEntry}
    (hdrop : ops.drop D.idx = ruleEntries rule ++ more) :
    ∃ D', (scanner tech ops).Reaches D (EncoderCall.ruleElements rule) D' ∧
      D'.idx = D.idx + (ruleEntries rule).length ∧ D'.x = D.x ∧ D'.y = D.y ∧
      D'.pointCnt = D.pointCnt := by
  cases rule with
  | none => exact ⟨D, Scanner.Reaches.refl D, rfl, rfl, rfl, rfl⟩
  | some rule =>
      obtain ⟨D', hpass, hidx, -, hx, hy, hcnt, helem⟩ := pass_rule tech hdrop
      have hreach := reaches tech hpass (by omega) hdrop
      rw [helem] at hreach
      exact ⟨D', hreach, hidx, hx, hy, hcnt⟩

/-- The start of a path that is no junction: `head` is read, then the rule. -/
theorem pathStarted {D₁ : DbWireDecoder} {layer : Nat} {wireType : UInt8}
    (rule : Option DbTechLayerRule) (head : List WireEntry) {element : WireElement}
    (h : Follows E D)
    (hops : ops = (E.pathStarted layer wireType rule (head ++ ruleEntries rule)).ops ++ rest)
    (hreach : (scanner tech ops).Reaches D [element] D₁) (hidx : D₁.idx = D.idx + head.length)
    (hcnt : D₁.pointCnt = 0) :
    ∃ D', (scanner tech ops).Reaches D (element :: EncoderCall.ruleElements rule) D' ∧
      Follows (E.pathStarted layer wireType rule (head ++ ruleEntries rule)) D' := by
  have hdrop : ops.drop D₁.idx = ruleEntries rule ++ rest := by
    have hall := h.drop hops
    rw [List.append_assoc] at hall
    rw [hidx, ← List.drop_drop, hall, List.drop_left]
  obtain ⟨D', hrule, hidx', hx', hy', hcnt'⟩ := reaches_rule tech hdrop
  have hzero : (E.pathStarted layer wireType rule (head ++ ruleEntries rule)).pointCnt = 0 :=
    E.startPath_pointCnt layer wireType rule
  refine ⟨D', hreach.trans hrule, ?_, fun hne => absurd hzero hne, ?_⟩
  · rw [hidx', hidx, h.idx]
    simp [DbWireEncoder.idx, DbWireEncoder.pathStarted]
    omega
  · rw [hcnt', hcnt, hzero]

theorem pathOffset {op : WireOp} {jct : Int} {layer : Nat} {type : DbWireType}
    {rule : Option DbTechLayerRule} {element : WireElement} (h : Follows E D)
    (hops : ops = (E.pathStarted layer (getWireType type) rule
      ((op.code ||| getWireType type, (layer : Int)) :: (WOP_OPERAND.code, jct) ::
        ruleEntries rule)).ops ++ rest)
    (hpass : ∀ more, ops.drop D.idx = (op.code ||| getWireType type, (layer : Int)) ::
        (WOP_OPERAND.code, jct) :: more →
      ∃ D', pass tech ops D = some (.ret D') ∧ D'.idx = D.idx + 2 ∧ D'.layer = layer ∧
        D'.pointCnt = 0 ∧ D'.element = element) :
    ∃ D', (scanner tech ops).Reaches D (element :: EncoderCall.ruleElements rule) D' ∧
      Follows (E.pathStarted layer (getWireType type) rule
        ((op.code ||| getWireType type, (layer : Int)) :: (WOP_OPERAND.code, jct) ::
          ruleEntries rule)) D' := by
  have hdrop := h.drop hops
  obtain ⟨D₁, hret, hidx, -, hcnt, helem⟩ := hpass _ hdrop
  have hreach := reaches tech hret (by omega) hdrop
  rw [helem] at hreach
  exact pathStarted tech _ [(op.code ||| getWireType type, (layer : Int)), (WOP_OPERAND.code, jct)] h
    hops hreach hidx hcnt

theorem junctionStarted {last : DbWireType} (h : Follows E D) (hvalid : E.Valid last)
    {pnt : WirePoint} {j : Nat} (hj : j < E.idx) (hpnt : getPrevPoint tech E.ops j true = some pnt)
    (type : DbWireType) (rule : Option DbTechLayerRule) (ext : Option Int)
    (hops : ops = (E.junctionStarted pnt j (getWireType type) rule ext).ops ++ rest)
    (hrest : NoRule rest) :
    ∃ D', (scanner tech ops).Reaches D (.junction j pnt.layer type.stored ::
        (EncoderCall.ruleElements rule ++ [pointElement ext pnt.x pnt.y
          ((E.junctionStarted pnt j (getWireType type) rule ext).idx - 1 : Nat)])) D' ∧
      Follows (E.junctionStarted pnt j (getWireType type) rule ext) D' := by
  set S := E.startPath pnt.layer (getWireType type) rule with hS
  have hdrop := h.drop hops
  have hwalk : getPrevPoint tech ops j true = some pnt := by
    rw [hops, DbWireEncoder.junctionStarted, List.append_assoc,
      getPrevPoint_append tech hvalid.backward _ hj, hpnt]
  obtain ⟨D₁, hret₁, hidx₁, -, hx₁, hy₁, helem₁⟩ := pass_junction tech hwalk hdrop
  have hreach₁ := reaches tech hret₁ (by omega) hdrop
  rw [helem₁] at hreach₁
  have hdrop₁ : ops.drop D₁.idx =
      ruleEntries rule ++ ((S.pointOp WOP_COLINEAR ext, ext.getD 0) :: rest) := by
    rw [hidx₁, drop_succ hdrop]
    exact List.append_assoc _ _ _
  obtain ⟨D₂, hreach₂, hidx₂, hx₂, hy₂, -⟩ := reaches_rule tech hdrop₁
  have hdrop₂ : ops.drop D₂.idx = (S.pointOp WOP_COLINEAR ext, ext.getD 0) :: ([] ++ rest) := by
    rw [hidx₂, ← List.drop_drop, hdrop₁, List.drop_left]
    rfl
  obtain ⟨D₃, hret₃, hidx₃, -, hx₃, hy₃, hcnt₃, helem₃⟩ :=
    pass_colinear tech hdrop₂ (S.ofOpcode_pointOp _ _) (S.hasFlag_pointOp WOP_COLINEAR ext)
      ⟨fun _ he => (List.not_mem_nil he).elim, Nat.zero_le 1, fun _ => hrest⟩
  have hreach₃ := reaches tech hret₃ (by omega) hdrop₂
  have hidx' : D₃.idx = (E.junctionStarted pnt j (getWireType type) rule ext).idx := by
    rw [hidx₃, hidx₂, hidx₁, h.idx]
    simp [DbWireEncoder.idx, DbWireEncoder.junctionStarted]
    omega
  have hlast : D₂.idx = (E.junctionStarted pnt j (getWireType type) rule ext).idx - 1 := by
    rw [← hidx', hidx₃]
    rfl
  rw [helem₃, hx₂, hy₂, hx₁, hy₁, hlast] at hreach₃
  refine ⟨D₃, hreach₁.trans (hreach₂.trans hreach₃), hidx', fun _ => ?_, ?_⟩
  · rw [hx₃, hy₃, hx₂, hy₂, hx₁, hy₁]
    exact ⟨rfl, rfl⟩
  · exact iff_of_false hcnt₃ Nat.one_ne_zero

/-! #### Calls -/

/-- An entry that leaves the point of the path: the decoder returns its element. -/
theorem single {E' : DbWireEncoder} {entries : List WireEntry} {element : WireElement}
    (h : Follows E D) (hE : E' = { E with ops := E.ops ++ entries }) (hops : ops = E'.ops ++ rest)
    (hpos : entries ≠ [])
    (hpass : ∀ more, ops.drop D.idx = entries ++ more →
      ∃ D', pass tech ops D = some (.ret D') ∧ D'.idx = D.idx + entries.length ∧
        D'.layer = D.layer ∧ D'.x = D.x ∧ D'.y = D.y ∧ D'.pointCnt = D.pointCnt ∧
        D'.element = element) :
    ∃ D', (scanner tech ops).Reaches D [element] D' ∧ Follows E' D' := by
  subst hE
  have hdrop := h.drop hops
  obtain ⟨D', hret, hidx, -, hx, hy, hcnt, helem⟩ := hpass rest hdrop
  obtain ⟨entry, tail, rfl⟩ := List.exists_cons_of_ne_nil hpos
  have hreach := reaches tech hret (by rw [hidx, List.length_cons]; omega) hdrop
  rw [helem] at hreach
  refine ⟨D', hreach, ?_, ?_, by rw [hcnt]; exact h.pointCnt⟩
  · rw [hidx, h.idx]
    simp [DbWireEncoder.idx]
  · rw [hx, hy]
    exact h.point

/-- A via: the path goes on on its exit layer. -/
theorem via {E' : DbWireEncoder} {op : UInt8} {via : Nat} {more : List WireEntry}
    {element : WireElement} (h : Follows E D) (hx : E'.x = E.x)
    (hy : E'.y = E.y) (hcnt : E'.pointCnt = E.pointCnt) (hE : E'.ops = E.ops ++ [(op, (via : Int))])
    (hops : ops = E'.ops ++ more)
    (hpass : ops.drop D.idx = (op, (via : Int)) :: more →
      ∃ D', pass tech ops D = some (.ret D') ∧ D'.idx = D.idx + 1 ∧
        D'.x = D.x ∧ D'.y = D.y ∧ D'.pointCnt = D.pointCnt ∧ D'.element = element) :
    ∃ D', (scanner tech ops).Reaches D [element] D' ∧ Follows E' D' := by
  rw [hE] at hops
  have hdrop := h.drop hops
  obtain ⟨D', hret, hidx, hx', hy', hcnt', helem⟩ := hpass hdrop
  have hreach := reaches tech hret (by omega) hdrop
  rw [helem] at hreach
  refine ⟨D', hreach, ?_, ?_, by rw [hcnt', hcnt]; exact h.pointCnt⟩
  · rw [hidx, h.idx, DbWireEncoder.idx, DbWireEncoder.idx, hE]
    simp
  · rw [hcnt, hx, hy, hx', hy']
    exact h.point

/-- Where the decoder follows the encoder, it reads the elements of the next call. -/
theorem perform {last : DbWireType} (h : Follows E D) (hvalid : E.Valid last) {E' : DbWireEncoder}
    {call : EncoderCall} {id : Nat} (hcall : E.perform tech call = .ok (E', id))
    (hops : ops = E'.ops ++ rest) (hrest : NoRule rest) :
    ∃ D', (scanner tech ops).Reaches D
        ((call.elements E' id (call.type?.getD last)).map WireElement.stored) D' ∧
      Follows E' D' := by
  cases call with
  | addPoint x y property =>
      obtain ⟨E₁, prevExt, hadd, rfl⟩ := addPoint_cases hcall
      exact h.pointEnd tech hvalid hadd hops hrest
  | addPointExt x y ext property =>
      obtain ⟨E₁, prevExt, hadd, rfl⟩ := addPointExt_cases hcall
      exact h.pointEnd tech hvalid hadd hops hrest
  | addVia via =>
      obtain ⟨-, rfl, rfl⟩ := addVia_cases hcall
      refine h.via tech rfl rfl rfl rfl hops fun hdrop => ?_
      rw [← h.idx]
      obtain ⟨D', hret, hidx, -, hread⟩ := pass_via tech hdrop (ofOpcode_viaOp _ _ _)
      exact ⟨D', hret, hidx, hread⟩
  | addTechVia via =>
      obtain ⟨-, rfl, rfl⟩ := addTechVia_cases hcall
      set op := viaOp WOP_TECH_VIA (tech.getTechVia via) E.layer
      set E₁ : DbWireEncoder := { E with
        ops := E.ops ++ [(op, (via : Int))]
        layer := (tech.getTechVia via).exitLayer op
        viaCnt := E.viaCnt + 1 } with hE₁
      have hops₁ : ops = E₁.ops ++ ((WOP_COLOR.code, 0) :: rest) := by
        rw [hops, hE₁]
        simp only [List.append_assoc, List.cons_append, List.nil_append]
      have hpass : ops.drop D.idx = (op, (via : Int)) :: (WOP_COLOR.code, 0) :: rest →
          ∃ D', pass tech ops D = some (.ret D') ∧ D'.idx = D.idx + 1 ∧
            D'.x = D.x ∧ D'.y = D.y ∧ D'.pointCnt = D.pointCnt ∧
            D'.element = .techVia via E₁.layer E.idx := fun hdrop => by
        rw [← h.idx]
        obtain ⟨D', hret, hidx, -, hread⟩ := pass_techVia tech hdrop (ofOpcode_viaOp _ _ _)
        exact ⟨D', hret, hidx, hread⟩
      have hvia : ∃ D₁, (scanner tech ops).Reaches D [.techVia via E₁.layer E.idx] D₁ ∧
          Follows E₁ D₁ := Follows.via tech h rfl rfl rfl rfl hops₁ hpass
      obtain ⟨D₁, hreach, hfollow⟩ := hvia
      have hops₂ : ops = { E₁ with ops := E₁.ops ++ [(WOP_COLOR.code, 0)] }.ops ++ rest :=
        hops₁.trans (List.append_assoc _ [_] _).symm
      obtain ⟨D', hskip, hfollow'⟩ := skip tech hfollow rfl hops₂ (Or.inr (Or.inl rfl))
      have hE' : { E₁ with ops := E₁.ops ++ [(WOP_COLOR.code, 0)] } = { E with
          ops := E.ops ++ [(op, (via : Int)), (WOP_COLOR.code, 0)]
          layer := (tech.getTechVia via).exitLayer op
          viaCnt := E.viaCnt + 1 } := by
        rw [hE₁]
        simp only [List.append_assoc, List.cons_append, List.nil_append]
      rw [hE'] at hfollow'
      exact ⟨D', hreach.trans hskip, hfollow'⟩
  | addRect deltaX1 deltaY1 deltaX2 deltaY2 =>
      obtain rfl := addRect_cases (ok_of_void hcall)
      exact h.single tech rfl hops (List.cons_ne_nil _ _) fun more hdrop => pass_rect tech hdrop
  | setColor maskColor =>
      obtain ⟨value, rfl⟩ := setColor_cases (ok_of_void hcall)
      exact h.skip tech rfl hops (Or.inr (Or.inl rfl))
  | clearColor =>
      cases hcall
      exact h.skip tech rfl hops (Or.inr (Or.inl rfl))
  | setViaColor bottomColor cutColor topColor =>
      obtain ⟨value, rfl⟩ := setViaColor_cases (ok_of_void hcall)
      exact h.skip tech rfl hops (Or.inr (Or.inr rfl))
  | clearViaColor =>
      cases hcall
      exact h.skip tech rfl hops (Or.inr (Or.inr rfl))
  | addITerm iterm =>
      obtain rfl := addTerm_cases (ok_of_void hcall)
      exact h.single tech rfl hops (List.cons_ne_nil _ _) fun more hdrop => pass_iterm tech hdrop
  | addBTerm bterm =>
      obtain rfl := addTerm_cases (ok_of_void hcall)
      exact h.single tech rfl hops (List.cons_ne_nil _ _) fun more hdrop => pass_bterm tech hdrop
  | newPath layer type =>
      cases hcall
      rw [newPath_eq] at hops ⊢
      have hdrop := h.drop hops
      obtain ⟨D₁, hret, hidx, -, hcnt, helem⟩ := pass_path tech hdrop
      have hreach := reaches tech hret (by omega) hdrop
      rw [helem] at hreach
      exact pathStarted tech none [_] h hops hreach hidx hcnt
  | newPathRule layer type rule =>
      cases hcall
      rw [newPathRule_eq] at hops ⊢
      have hdrop := h.drop hops
      obtain ⟨D₁, hret, hidx, -, hcnt, helem⟩ := pass_path tech hdrop
      have hreach := reaches tech hret (by omega) hdrop
      rw [helem] at hreach
      exact pathStarted tech _ [_] h hops hreach hidx hcnt
  | newPathShort jctId layer type rule =>
      obtain ⟨-, rfl⟩ := newPathOffset_cases (ok_of_void hcall)
      have hstart := h.pathOffset tech hops fun more hdrop => pass_short tech hdrop
      cases rule <;> exact hstart
  | newPathVirtualWire jctId layer type rule =>
      obtain ⟨-, rfl⟩ := newPathOffset_cases (ok_of_void hcall)
      have hstart := h.pathOffset tech hops fun more hdrop => pass_vwire tech hdrop
      cases rule <;> exact hstart
  | newPathFrom jctId type rule =>
      obtain ⟨j, pnt, rfl, hj, hpnt, rfl⟩ := newPathFrom_cases (ok_of_void hcall)
      rw [hvalid.givenType] at hops ⊢
      have hstart := h.junctionStarted tech hvalid hj hpnt (type.getD last) rule none hops hrest
      cases rule <;> exact hstart
  | newPathExt jctId ext type rule =>
      obtain ⟨j, pnt, rfl, hj, hpnt, rfl⟩ := newPathExt_cases (ok_of_void hcall)
      rw [hvalid.givenType] at hops ⊢
      have hstart := h.junctionStarted tech hvalid hj hpnt (type.getD last) rule (some ext) hops hrest
      cases rule <;> exact hstart

end Follows

/-! ### Encodings -/

namespace DbWireEncoder

/-- The calls of an encoding in order, and the elements they add; `last` is the wire type given
last. -/
def performAll (tech : DbTech) (E : DbWireEncoder) (last : DbWireType) :
    List EncoderCall → Except WireError (DbWireEncoder × List WireElement)
  | [] => pure (E, [])
  | call :: calls => do
      let (E', id) ← E.perform tech call
      let type := call.type?.getD last
      let (E'', elements) ← performAll tech E' type calls
      pure (E'', call.elements E' id type ++ elements)

/-- `end`: the wire is replaced, unless nothing was encoded. -/
def finish (E : DbWireEncoder) (wire : List WireEntry) : List WireEntry :=
  if E.ops = [] then wire else E.ops

/-- An encoding of a wire from `begin` to `end`. -/
def encode (tech : DbTech) (E : DbWireEncoder) (last : DbWireType) (wire : List WireEntry)
    (calls : List EncoderCall) : Except WireError (List WireEntry × List WireElement) := do
  let (E', elements) ← E.begin.performAll tech last calls
  pure (E'.finish wire, elements)

theorem performAll_cons {tech : DbTech} {E E'' : DbWireEncoder} {last : DbWireType}
    {call : EncoderCall} {calls : List EncoderCall} {elements : List WireElement}
    (h : E.performAll tech last (call :: calls) = .ok (E'', elements)) :
    ∃ E' id rest, E.perform tech call = .ok (E', id) ∧
      E'.performAll tech (call.type?.getD last) calls = .ok (E'', rest) ∧
      elements = call.elements E' id (call.type?.getD last) ++ rest := by
  unfold performAll at h
  cases hcall : E.perform tech call with
  | error e =>
      rw [hcall] at h
      cases h
  | ok result =>
      rw [hcall] at h
      change (performAll tech result.1 (call.type?.getD last) calls >>= _) = _ at h
      cases hrest : performAll tech result.1 (call.type?.getD last) calls with
      | error e =>
          rw [hrest] at h
          cases h
      | ok result' =>
          rw [hrest] at h
          cases h
          exact ⟨result.1, result.2, result'.2, rfl, hrest, rfl⟩

theorem Valid.begin {E : DbWireEncoder} {last : DbWireType} (hlast : E.wireType = getWireType last) :
    E.begin.Valid last :=
  ⟨(fun i entry hentry => by cases hentry), fun hne => absurd rfl hne, hlast⟩

/-- All the calls only append, and what they append does not start with a rule. -/
theorem Valid.performAll {tech : DbTech} {E E' : DbWireEncoder} {last : DbWireType}
    (h : E.Valid last) {calls : List EncoderCall} {elements : List WireElement}
    (hcalls : E.performAll tech last calls = .ok (E', elements)) :
    ∃ entries, E'.ops = E.ops ++ entries ∧ DbWireDecoder.NoRule entries := by
  induction calls generalizing E last elements with
  | nil =>
      cases hcalls
      exact ⟨[], (List.append_nil _).symm, fun entry hentry => by cases hentry⟩
  | cons call calls ih =>
      obtain ⟨E₁, id, rest, hcall, hrest, -⟩ := performAll_cons hcalls
      obtain ⟨entries, hops, happ, hvalid⟩ := h.perform hcall
      obtain ⟨more, hmore, -⟩ := ih hvalid hrest
      obtain ⟨entry, tail, rfl, hrule⟩ := happ.head
      refine ⟨entry :: tail ++ more, by rw [hmore, hops, List.append_assoc], ?_⟩
      intro e he
      cases he
      exact hrule

end DbWireEncoder

namespace Follows

open DbWireDecoder DbWireEncoder

/-- The decoder reads the elements of all the calls that are still to come. -/
theorem performAll {tech : DbTech} {E E' : DbWireEncoder} {D : DbWireDecoder} {last : DbWireType}
    (h : Follows E D) (hvalid : E.Valid last) {calls : List EncoderCall}
    {elements : List WireElement} (hcalls : E.performAll tech last calls = .ok (E', elements)) :
    (scanner tech E'.ops).Scans D (elements.map WireElement.stored) := by
  induction calls generalizing E D last elements with
  | nil =>
      cases hcalls
      apply Scanner.Scans.nil
      change E'.ops.length - D.idx = 0
      rw [h.idx]
      exact Nat.sub_self _
  | cons call calls ih =>
      obtain ⟨E₁, id, rest, hcall, hrest, rfl⟩ := performAll_cons hcalls
      obtain ⟨-, -, -, hvalid₁⟩ := hvalid.perform hcall
      obtain ⟨more, hmore, hnoRule⟩ := hvalid₁.performAll hrest
      obtain ⟨D₁, hreach, hfollow⟩ := h.perform tech hvalid hcall hmore hnoRule
      rw [List.map_append]
      exact hreach.scans (ih hfollow hvalid₁ hrest)

end Follows

namespace DbWireDecoder

open DbWireEncoder

/-- An encoding of a new wire, or one with a call, replaces the wire. -/
theorem encode_cases {tech : DbTech} {E : DbWireEncoder} {last : DbWireType}
    (hlast : E.wireType = getWireType last) {wire : List WireEntry} {calls : List EncoderCall}
    (hcalls : calls = [] → wire = []) {wire' : List WireEntry} {elements : List WireElement}
    (hencode : E.encode tech last wire calls = .ok (wire', elements)) :
    ∃ E', E.begin.performAll tech last calls = .ok (E', elements) ∧ wire' = E'.ops := by
  unfold encode at hencode
  cases hall : E.begin.performAll tech last calls with
  | error e =>
      rw [hall] at hencode
      cases hencode
  | ok result =>
      obtain ⟨E', elements'⟩ := result
      rw [hall] at hencode
      obtain ⟨rfl, rfl⟩ := Prod.mk.inj (Except.ok.inj hencode)
      have hvalid : E.begin.Valid last := Valid.begin hlast
      refine ⟨E', rfl, ?_⟩
      unfold finish
      split
      · rename_i hnil
        cases calls with
        | nil => rw [hcalls rfl, hnil]
        | cons call calls =>
            obtain ⟨E₁, id, rest, hcall, hrest, -⟩ := performAll_cons hall
            obtain ⟨entries, hops₁, happ, hvalid₁⟩ := hvalid.perform hcall
            obtain ⟨more, hmore, -⟩ := hvalid₁.performAll hrest
            obtain ⟨entry, tail, rfl, -⟩ := happ.head
            rw [hmore, hops₁] at hnil
            cases hnil
      · rfl

/-- A fresh decoder reads the elements of the calls, with the wire types as they are encoded. An
encoder that was used before keeps the wire type given last. -/
theorem decode_encode (tech : DbTech) (E : DbWireEncoder) (last : DbWireType)
    (hlast : E.wireType = getWireType last) (wire : List WireEntry) (calls : List EncoderCall)
    (hcalls : calls = [] → wire = []) {wire' : List WireEntry} {elements : List WireElement}
    (hencode : E.encode tech last wire calls = .ok (wire', elements)) :
    decode tech wire' = some (elements.map WireElement.stored) := by
  obtain ⟨E', hall, rfl⟩ := encode_cases hlast hcalls hencode
  have hfollow : Follows E.begin {} := ⟨rfl, fun hne => absurd rfl hne, Iff.rfl⟩
  exact (hfollow.performAll (Valid.begin hlast) hall).collect (Nat.lt_succ_self _)

/-- A technology with one via between the layers 1 and 2. -/
def twoLayers : DbTech where
  getTechLayer _ := ⟨10, 20, .HORIZONTAL⟩
  getVia _ := ⟨2, 1, none⟩
  getTechVia _ := ⟨2, 1, none⟩
  blockRuleWidth _ := 30
  techRuleWidth _ := 30

theorem decode_encode_via : ∃ wire, ({} : DbWireEncoder).encode twoLayers .NONE []
      [.newPath 1 .ROUTED, .addPoint 0 0 0, .addPointExt 5 0 2 0, .addVia 1,
        .newPathFrom 2 none none, .addPoint 0 7 0] =
      .ok (wire, [.path 1 .ROUTED, .point 0 0 2, .pointExt 5 0 2 3, .via 1 2 6,
        .junction 2 1 .ROUTED, .point 0 0 8, .point 0 7 9]) ∧
    decode twoLayers wire = some [.path 1 .ROUTED, .point 0 0 2, .pointExt 5 0 2 3, .via 1 2 6,
      .junction 2 1 .ROUTED, .point 0 0 8, .point 0 7 9] :=
  ⟨_, rfl, decode_encode twoLayers {} .NONE rfl [] [.newPath 1 .ROUTED, .addPoint 0 0 0,
    .addPointExt 5 0 2 0, .addVia 1, .newPathFrom 2 none none, .addPoint 0 7 0] (by decide) rfl⟩

/-- A shielded path comes back as a path without a type, and an encoding without a call leaves the
wire as it was. -/
theorem not_decode_encode :
    (∃ wire elements, ({} : DbWireEncoder).encode twoLayers .NONE [] [.newPath 1 .SHIELD] =
        .ok (wire, elements) ∧ decode twoLayers wire ≠ some elements) ∧
    (∃ wire elements, ({} : DbWireEncoder).encode twoLayers .NONE [(0, 1)] [] =
        .ok (wire, elements) ∧ decode twoLayers wire ≠ some elements) :=
  ⟨⟨_, _, rfl, by decide⟩, _, _, rfl, by decide⟩

end DbWireDecoder

end OpenRoad.Db
