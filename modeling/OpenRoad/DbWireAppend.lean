import OpenRoad.DbWireColor
import OpenRoad.DbWireJunction

/-!
Appending a wire to another. The junction ids of the appended wire are shifted by the length of the
one before; a path that starts with a short or a virtual wire has its layer shifted instead.
-/

namespace OpenRoad.Db

open WireOp

/-! ### The code -/

/-- The fix-up of an entry of the appended wire. -/
def fixJunction (sz : Nat) (entry : WireEntry) : WireEntry :=
  match WireOp.ofOpcode entry.1 with
  | some .WOP_SHORT | some .WOP_JUNCTION | some .WOP_VWIRE => (entry.1, entry.2 + sz)
  | _ => entry

/-- `dbWire::append` of a wire of the same block -/
def DbWire.append (dst src : List WireEntry) : List WireEntry := dst ++ src.map (fixJunction dst.length)

/-- The element with its junction ids shifted. -/
def WireElement.shift (n : Nat) : WireElement → WireElement
  | .junction jct layer type => .junction (jct + n) layer type
  | .short jct layer type => .short (jct + n) layer type
  | .vwire jct layer type => .vwire (jct + n) layer type
  | .point x y jctId => .point x y (jctId + n)
  | .pointExt x y ext jctId => .pointExt x y ext (jctId + n)
  | .via v layer jctId => .via v layer (jctId + n)
  | .techVia v layer jctId => .techVia v layer (jctId + n)
  | element => element

namespace EncoderCall

/-- The call with the junction that its path starts at shifted. -/
def shift (n : Nat) : EncoderCall → EncoderCall
  | .newPathFrom jctId type rule => .newPathFrom (jctId + n) type rule
  | .newPathExt jctId ext type rule => .newPathExt (jctId + n) ext type rule
  | call => call

/-- The start of a path with a short or a virtual wire. -/
def isOffset : EncoderCall → Bool
  | .newPathShort _ _ _ _ | .newPathVirtualWire _ _ _ _ => true
  | _ => false

end EncoderCall

/-! ### Entries -/

@[simp] theorem fixJunction_op (sz : Nat) (entry : WireEntry) :
    (fixJunction sz entry).1 = entry.1 := by
  unfold fixJunction
  split <;> rfl

/-- Entries that the fix-up leaves as they are. -/
def Fixed (entries : List WireEntry) : Prop := ∀ entry ∈ entries, ∀ sz, fixJunction sz entry = entry

theorem fixJunction_of_op {entry : WireEntry} {op : WireOp} (h : WireOp.ofOpcode entry.1 = some op)
    (hshort : op ≠ WOP_SHORT) (hjunction : op ≠ WOP_JUNCTION) (hvwire : op ≠ WOP_VWIRE) (sz : Nat) :
    fixJunction sz entry = entry := by
  unfold fixJunction
  rw [h]
  cases op <;> first | rfl | contradiction

namespace DbWireEncoder

/-- The encoder after a wire to which what it encodes is appended. -/
def onto (E : DbWireEncoder) (d : List WireEntry) : DbWireEncoder :=
  { E with ops := DbWire.append d E.ops }

variable (E : DbWireEncoder) (d : List WireEntry)

@[simp] theorem onto_layer : (E.onto d).layer = E.layer := rfl
@[simp] theorem onto_x : (E.onto d).x = E.x := rfl
@[simp] theorem onto_y : (E.onto d).y = E.y := rfl
@[simp] theorem onto_nonDefaultRule : (E.onto d).nonDefaultRule = E.nonDefaultRule := rfl
@[simp] theorem onto_pointCnt : (E.onto d).pointCnt = E.pointCnt := rfl
@[simp] theorem onto_widthFlag : (E.onto d).widthFlag = E.widthFlag := rfl

@[simp] theorem onto_idx : (E.onto d).idx = d.length + E.idx := by
  simp [idx, onto, DbWire.append]

theorem dbWireAppend_append {entries : List WireEntry} (h : Fixed entries) (s : List WireEntry) :
    DbWire.append d (s ++ entries) = DbWire.append d s ++ entries := by
  unfold DbWire.append
  have hmap : entries.map (fixJunction d.length) = entries :=
    (List.map_congr_left fun entry hentry => h entry hentry _).trans (List.map_id' _)
  rw [List.map_append, hmap, List.append_assoc]

/-! ### Points -/

variable {E d}

theorem fixed_nil : Fixed [] := fun _ h => (List.not_mem_nil h).elim

theorem fixed_cons {entry : WireEntry} {entries : List WireEntry} {op : WireOp}
    (h : WireOp.ofOpcode entry.1 = some op) (hshort : op ≠ WOP_SHORT) (hjunction : op ≠ WOP_JUNCTION)
    (hvwire : op ≠ WOP_VWIRE) (hrest : Fixed entries) : Fixed (entry :: entries) :=
  List.forall_mem_cons.mpr ⟨fixJunction_of_op h hshort hjunction hvwire, hrest⟩

theorem addOp_onto {op : UInt8} {o : WireOp} (h : WireOp.ofOpcode op = some o)
    (hshort : o ≠ WOP_SHORT) (hjunction : o ≠ WOP_JUNCTION) (hvwire : o ≠ WOP_VWIRE) (value : Int) :
    (E.onto d).addOp op value = (E.addOp op value).onto d := by
  unfold addOp onto
  rw [dbWireAppend_append d (fixed_cons h hshort hjunction hvwire fixed_nil)]

theorem insertRule_onto (hrule : E.nonDefaultRule ≠ 0 → WireOp.ofOpcode E.ruleOpcode = some WOP_RULE) :
    (E.onto d).insertRule = E.insertRule.onto d := by
  unfold insertRule
  by_cases hcond : E.nonDefaultRule ≠ 0 ∧ E.pointCnt ≠ 0 ∧
      E.pointCnt &&& (WOP_NON_DEFAULT_WIDTH_POINT_CNT - 1) = 0
  · rw [if_pos hcond, onto_nonDefaultRule, onto_pointCnt, if_pos hcond]
    exact addOp_onto (hrule hcond.1) (by decide) (by decide) (by decide) _
  · rw [if_neg hcond, onto_nonDefaultRule, onto_pointCnt, if_neg hcond]

theorem addProperty_onto (property : Nat) :
    (E.onto d).addProperty property = (E.addProperty property).onto d := by
  unfold addProperty
  rw [onto_pointCnt]
  split
  · exact addOp_onto (WireOp.ofOpcode_code _) (by decide) (by decide) (by decide) _
  · rfl

theorem pointOp_onto (op : WireOp) (ext : Option Int) : (E.onto d).pointOp op ext = E.pointOp op ext := by
  cases ext <;> rfl


/-- What a call of the appended wire's encoder returns, after the other wire. -/
def ontoResult (d : List WireEntry) (r : DbWireEncoder × Nat) : DbWireEncoder × Nat :=
  (r.1.onto d, d.length + r.2)

/-- The rule that is inserted after points is an entry of a rule. -/
def RuleOk (E : DbWireEncoder) : Prop :=
  E.nonDefaultRule ≠ 0 → WireOp.ofOpcode E.ruleOpcode = some WOP_RULE

theorem pointEnd_onto {P P' : DbWireEncoder} (hP : P' = P.onto d) (hrule : RuleOk P)
    (property : Nat) :
    P'.insertRule.addProperty property = (P.insertRule.addProperty property).onto d := by
  rw [hP, insertRule_onto hrule, addProperty_onto]

section Point

variable (hrule : RuleOk E) (x y : Int) (property : Nat)

include hrule

theorem addPoint_onto {r : DbWireEncoder × Nat} (h : E.addPoint x y property = .ok r) :
    (E.onto d).addPoint x y property = .ok (ontoResult d r) := by
  have hop : ∀ op : WireOp, WireOp.ofOpcode (op.code ||| E.widthFlag) = some op := fun op =>
    E.ofOpcode_pointOp op none
  have hend : ∀ {P : DbWireEncoder}, RuleOk P → { (P.onto d).insertRule.addProperty property with
      prevExtendedColinearPnt := false } = { P.insertRule.addProperty property with
      prevExtendedColinearPnt := false }.onto d := fun hP => by rw [pointEnd_onto rfl hP]; rfl
  by_cases hcnt : E.pointCnt = 0
  · simp only [addPoint, if_pos hcnt] at h
    obtain rfl := Except.ok.inj h
    simp only [addPoint, onto_pointCnt, onto_widthFlag, onto_idx, if_pos hcnt]
    rw [addOp_onto (hop WOP_X) (by decide) (by decide) (by decide),
      addOp_onto (hop WOP_Y) (by decide) (by decide) (by decide)]
    have hP : RuleOk { (E.addOp (WOP_X.code ||| E.widthFlag) x).addOp (WOP_Y.code ||| E.widthFlag) y
        with x, y, pointCnt := E.pointCnt + 1 } := hrule
    exact congrArg Except.ok (Prod.ext (hend hP) (Nat.add_assoc _ _ _))
  by_cases hxy : E.x = x ∧ E.y = y
  · simp only [addPoint, if_neg hcnt, if_pos hxy] at h
    obtain rfl := Except.ok.inj h
    simp only [addPoint, onto_pointCnt, onto_x, onto_y, onto_widthFlag, onto_idx, if_neg hcnt,
      if_pos hxy]
    rw [addOp_onto (hop WOP_COLINEAR) (by decide) (by decide) (by decide)]
    have hP : RuleOk (E.addOp (WOP_COLINEAR.code ||| E.widthFlag) 0) := hrule
    exact congrArg Except.ok (Prod.ext (hend hP) rfl)
  by_cases hy : E.y = y
  · simp only [addPoint, if_neg hcnt, if_neg hxy, if_pos hy] at h
    obtain rfl := Except.ok.inj h
    simp only [addPoint, onto_pointCnt, onto_x, onto_y, onto_widthFlag, onto_idx, if_neg hcnt,
      if_neg hxy, if_pos hy]
    rw [addOp_onto (hop WOP_X) (by decide) (by decide) (by decide)]
    have hP : RuleOk { E.addOp (WOP_X.code ||| E.widthFlag) x with
        x, pointCnt := E.pointCnt + 1 } := hrule
    exact congrArg Except.ok (Prod.ext (hend hP) rfl)
  by_cases hx : E.x = x
  · simp only [addPoint, if_neg hcnt, if_neg hxy, if_neg hy, if_pos hx] at h
    obtain rfl := Except.ok.inj h
    simp only [addPoint, onto_pointCnt, onto_x, onto_y, onto_widthFlag, onto_idx, if_neg hcnt,
      if_neg hxy, if_neg hy, if_pos hx]
    rw [addOp_onto (hop WOP_Y) (by decide) (by decide) (by decide)]
    have hP : RuleOk { E.addOp (WOP_Y.code ||| E.widthFlag) y with
        y, pointCnt := E.pointCnt + 1 } := hrule
    exact congrArg Except.ok (Prod.ext (hend hP) rfl)
  · simp only [addPoint, if_neg hcnt, if_neg hxy, if_neg hy, if_neg hx] at h
    cases h

theorem addPointExt_onto (ext : Int) {r : DbWireEncoder × Nat}
    (h : E.addPointExt x y ext property = .ok r) :
    (E.onto d).addPointExt x y ext property = .ok (ontoResult d r) := by
  have hop : ∀ op : WireOp, WireOp.ofOpcode (op.code ||| E.widthFlag) = some op := fun op =>
    E.ofOpcode_pointOp op none
  have hopExt : ∀ op : WireOp, WireOp.ofOpcode (op.code ||| (WOP_EXTENSION ||| E.widthFlag)) = some op :=
    fun op => E.ofOpcode_pointOp op (some ext)
  have hend : ∀ {P : DbWireEncoder}, RuleOk P → (P.onto d).insertRule.addProperty property =
      (P.insertRule.addProperty property).onto d := fun hP => pointEnd_onto rfl hP property
  by_cases hcnt : E.pointCnt = 0
  · simp only [addPointExt, if_pos hcnt] at h
    obtain rfl := Except.ok.inj h
    simp only [addPointExt, onto_pointCnt, onto_widthFlag, onto_idx, if_pos hcnt]
    rw [addOp_onto (hop WOP_X) (by decide) (by decide) (by decide),
      addOp_onto (hopExt WOP_Y) (by decide) (by decide) (by decide),
      addOp_onto (WireOp.ofOpcode_code WOP_OPERAND) (by decide) (by decide) (by decide)]
    have hP : RuleOk { ((E.addOp (WOP_X.code ||| E.widthFlag) x).addOp
        (WOP_Y.code ||| (WOP_EXTENSION ||| E.widthFlag)) y).addOp WOP_OPERAND.code ext with
        x, y, pointCnt := E.pointCnt + 1, prevExtendedColinearPnt := false } := hrule
    exact congrArg Except.ok (Prod.ext (hend hP) (Nat.add_assoc _ _ _))
  by_cases hxy : E.x = x ∧ E.y = y
  · by_cases hcolinear : (E.colinearExtRule1 && E.colinearExtRule2) = true
    · simp only [addPointExt, if_neg hcnt, if_pos hxy, if_pos hcolinear] at h
      obtain rfl := Except.ok.inj h
      have hcolinear' : ((E.onto d).colinearExtRule1 && (E.onto d).colinearExtRule2) = true :=
        hcolinear
      simp only [addPointExt, onto_pointCnt, onto_x, onto_y, onto_widthFlag, onto_idx, if_neg hcnt,
        if_pos hxy, if_pos hcolinear']
      rw [addOp_onto (hopExt WOP_COLINEAR) (by decide) (by decide) (by decide)]
      have hP : RuleOk { E.addOp (WOP_COLINEAR.code ||| (WOP_EXTENSION ||| E.widthFlag)) ext with
          prevExtendedColinearPnt := true } := hrule
      exact congrArg Except.ok (Prod.ext (hend hP) rfl)
    · simp only [addPointExt, if_neg hcnt, if_pos hxy, if_neg hcolinear] at h
      cases h
  by_cases hy : E.y = y
  · simp only [addPointExt, if_neg hcnt, if_neg hxy, if_pos hy] at h
    obtain rfl := Except.ok.inj h
    simp only [addPointExt, onto_pointCnt, onto_x, onto_y, onto_widthFlag, onto_idx, if_neg hcnt,
      if_neg hxy, if_pos hy]
    rw [addOp_onto (hopExt WOP_X) (by decide) (by decide) (by decide),
      addOp_onto (WireOp.ofOpcode_code WOP_OPERAND) (by decide) (by decide) (by decide)]
    have hP : RuleOk { (E.addOp (WOP_X.code ||| (WOP_EXTENSION ||| E.widthFlag)) x).addOp
        WOP_OPERAND.code ext with
        x, pointCnt := E.pointCnt + 1, prevExtendedColinearPnt := false } := hrule
    exact congrArg Except.ok (Prod.ext (hend hP) rfl)
  by_cases hx : E.x = x
  · simp only [addPointExt, if_neg hcnt, if_neg hxy, if_neg hy, if_pos hx] at h
    obtain rfl := Except.ok.inj h
    simp only [addPointExt, onto_pointCnt, onto_x, onto_y, onto_widthFlag, onto_idx, if_neg hcnt,
      if_neg hxy, if_neg hy, if_pos hx]
    rw [addOp_onto (hopExt WOP_Y) (by decide) (by decide) (by decide),
      addOp_onto (WireOp.ofOpcode_code WOP_OPERAND) (by decide) (by decide) (by decide)]
    have hP : RuleOk { (E.addOp (WOP_Y.code ||| (WOP_EXTENSION ||| E.widthFlag)) y).addOp
        WOP_OPERAND.code ext with
        y, pointCnt := E.pointCnt + 1, prevExtendedColinearPnt := false } := hrule
    exact congrArg Except.ok (Prod.ext (hend hP) rfl)
  · simp only [addPointExt, if_neg hcnt, if_neg hxy, if_neg hy, if_neg hx] at h
    cases h

end Point

/-! ### Vias and other entries -/

variable {tech : DbTech}

theorem addVia_onto (via : Nat) {r : DbWireEncoder × Nat} (h : E.addVia tech via = .ok r) :
    (E.onto d).addVia tech via = .ok (ontoResult d r) := by
  have hop : ∀ flags : UInt8, flags &&& WOP_OPCODE_MASK = 0 →
      WireOp.ofOpcode (WOP_VIA.code ||| flags) = some WOP_VIA := fun flags => WireOp.ofOpcode_or WOP_VIA
  by_cases hcnt : E.pointCnt = 0
  · simp only [addVia, if_pos hcnt] at h
    cases h
  by_cases htop : (tech.getVia via).topLayer = E.layer
  · simp only [addVia, if_neg hcnt, if_pos htop] at h
    obtain rfl := Except.ok.inj h
    simp only [addVia, onto_pointCnt, onto_layer, onto_idx, if_neg hcnt, if_pos htop]
    rw [addOp_onto (WireOp.ofOpcode_code WOP_VIA) (by decide) (by decide) (by decide)]
    rfl
  by_cases hbot : (tech.getVia via).bottomLayer = E.layer
  · simp only [addVia, if_neg hcnt, if_neg htop, if_pos hbot] at h
    obtain rfl := Except.ok.inj h
    simp only [addVia, onto_pointCnt, onto_layer, onto_idx, if_neg hcnt, if_neg htop, if_pos hbot]
    rw [addOp_onto (hop WOP_VIA_EXIT_TOP (by decide)) (by decide) (by decide) (by decide)]
    rfl
  · simp only [addVia, if_neg hcnt, if_neg htop, if_neg hbot] at h
    cases h

theorem addTechVia_onto (via : Nat) {r : DbWireEncoder × Nat} (h : E.addTechVia tech via = .ok r) :
    (E.onto d).addTechVia tech via = .ok (ontoResult d r) := by
  have hop : ∀ flags : UInt8, flags &&& WOP_OPCODE_MASK = 0 →
      WireOp.ofOpcode (WOP_TECH_VIA.code ||| flags) = some WOP_TECH_VIA := fun flags =>
    WireOp.ofOpcode_or WOP_TECH_VIA
  have hclear : ∀ P : DbWireEncoder, (P.onto d).clearColor = P.clearColor.onto d := fun P =>
    addOp_onto (WireOp.ofOpcode_code WOP_COLOR) (by decide) (by decide) (by decide) 0
  by_cases hcnt : E.pointCnt = 0
  · simp only [addTechVia, if_pos hcnt] at h
    cases h
  by_cases htop : (tech.getTechVia via).topLayer = E.layer
  · simp only [addTechVia, if_neg hcnt, if_pos htop] at h
    obtain rfl := Except.ok.inj h
    simp only [addTechVia, onto_pointCnt, onto_layer, onto_idx, if_neg hcnt, if_pos htop]
    rw [addOp_onto (WireOp.ofOpcode_code WOP_TECH_VIA) (by decide) (by decide) (by decide)]
    have hP := hclear { E.addOp WOP_TECH_VIA.code via with layer := (tech.getTechVia via).bottomLayer }
    exact congrArg (fun P : DbWireEncoder =>
      Except.ok ({ P with viaCnt := P.viaCnt + 1 }, d.length + E.idx)) hP
  by_cases hbot : (tech.getTechVia via).bottomLayer = E.layer
  · simp only [addTechVia, if_neg hcnt, if_neg htop, if_pos hbot] at h
    obtain rfl := Except.ok.inj h
    simp only [addTechVia, onto_pointCnt, onto_layer, onto_idx, if_neg hcnt, if_neg htop, if_pos hbot]
    rw [addOp_onto (hop WOP_VIA_EXIT_TOP (by decide)) (by decide) (by decide) (by decide)]
    have hP := hclear { E.addOp (WOP_TECH_VIA.code ||| WOP_VIA_EXIT_TOP) via with
      layer := (tech.getTechVia via).topLayer }
    exact congrArg (fun P : DbWireEncoder =>
      Except.ok ({ P with viaCnt := P.viaCnt + 1 }, d.length + E.idx)) hP
  · simp only [addTechVia, if_neg hcnt, if_neg htop, if_neg hbot] at h
    cases h

end DbWireEncoder

/-! ### The walk back in an appended wire -/

section Walk

variable {d s : List WireEntry}

theorem getElem?_append_shift (idx : Nat) :
    (DbWire.append d s)[d.length + idx]? = s[idx]?.map (fixJunction d.length) := by
  unfold DbWire.append
  rw [List.getElem?_append_right (Nat.le_add_right _ _), Nat.add_sub_cancel_left, List.getElem?_map]

theorem prevIdx_fix {entry : WireEntry} {idx i n : Nat} (h : prevIdx entry idx = some i) :
    prevIdx (fixJunction n entry) (n + idx) = some (n + i) := by
  unfold prevIdx at h ⊢
  rw [fixJunction_op]
  by_cases hop : WireOp.ofOpcode entry.1 = some WOP_JUNCTION
  · rw [if_pos hop] at h ⊢
    have hfix : (fixJunction n entry).2 = entry.2 + n := by
      unfold fixJunction
      rw [hop]
    rw [hfix]
    match entry.2, h with
    | .ofNat j, h =>
        obtain rfl := Option.some.inj h
        exact congrArg some (Nat.add_comm _ _)
  · rw [if_neg hop] at h ⊢
    match idx, h with
    | idx + 1, h =>
        obtain rfl := Option.some.inj h
        rfl

theorem Found.append_shift {α : Type} {f : WireEntry → Option α} {idx : Nat} {v : α}
    (hf : ∀ entry ∈ s, f (fixJunction d.length entry) = f entry) (h : Found f s idx v) :
    Found f (DbWire.append d s) (d.length + idx) v := by
  induction h with
  | here hentry hv =>
      refine .here (by rw [getElem?_append_shift, hentry]; rfl) ?_
      rw [hf _ (List.mem_of_getElem? hentry)]
      exact hv
  | back hentry hnone hprev _ ih =>
      refine .back (by rw [getElem?_append_shift, hentry]; rfl) ?_ (prevIdx_fix hprev) ih
      rw [hf _ (List.mem_of_getElem? hentry)]
      exact hnone

/-- Without shorts, the walk back finds in the appended wire what it found before. -/
theorem getPrevPoint_append_shift {tech : DbTech} (hback : BackwardJunctions s)
    (hback' : BackwardJunctions (DbWire.append d s))
    (hshort : ∀ entry ∈ s, WireOp.ofOpcode entry.1 ≠ some WOP_SHORT) {j : Nat} {pnt : WirePoint}
    (h : getPrevPoint tech s j true = some pnt) :
    getPrevPoint tech (DbWire.append d s) (d.length + j) true = some pnt := by
  obtain ⟨hx, hy, hlayer⟩ := (getPrevPoint_iff hback).mp h
  refine (getPrevPoint_iff hback').mpr ⟨hx.append_shift fun entry _ => ?_,
    hy.append_shift fun entry _ => ?_, hlayer.append_shift fun entry hentry => ?_⟩
  · unfold xOf fixJunction
    split <;> simp [*]
  · unfold yOf fixJunction
    split <;> simp [*]
  · have hno := hshort entry hentry
    unfold fixJunction
    split
    · exact absurd ‹_› hno
    · simp [layerOf, *]
    · simp [layerOf, *]
    · rfl

end Walk

/-! ### Calls after another wire -/

namespace DbWireEncoder

variable {tech : DbTech} {E E' : DbWireEncoder} {d : List WireEntry} {last : DbWireType}

theorem startPath_onto (layer : Nat) (wireType : UInt8) (rule : Option DbTechLayerRule) :
    (E.onto d).startPath layer wireType rule = (E.startPath layer wireType rule).onto d := by
  cases rule <;> rfl

theorem fixed_ruleEntries (rule : Option DbTechLayerRule) : Fixed (ruleEntries rule) :=
  fun entry hentry => fixJunction_of_op (ofOpcode_ruleEntries entry hentry) (by decide) (by decide)
    (by decide)

theorem pathStarted_onto (layer : Nat) (wireType : UInt8) (rule : Option DbTechLayerRule)
    {entries : List WireEntry} (h : Fixed entries) :
    (E.onto d).pathStarted layer wireType rule entries =
      (E.pathStarted layer wireType rule entries).onto d := by
  unfold pathStarted
  rw [startPath_onto]
  unfold onto
  rw [dbWireAppend_append d h]

theorem junctionStarted_onto (pnt : WirePoint) (j : Nat) (type : DbWireType)
    (rule : Option DbTechLayerRule) (ext : Option Int) :
    (E.onto d).junctionStarted pnt ((j : Int) + d.length) (getWireType type) rule ext =
      (E.junctionStarted pnt j (getWireType type) rule ext).onto d := by
  have hfix : fixJunction d.length (WOP_JUNCTION.code ||| getWireType type, (j : Int)) =
      (WOP_JUNCTION.code ||| getWireType type, (j : Int) + d.length) := by
    unfold fixJunction
    rw [ofOpcode_or_getWireType]
  have hrest : Fixed (ruleEntries rule ++
      [((E.startPath pnt.layer (getWireType type) rule).pointOp WOP_COLINEAR ext, ext.getD 0)]) := by
    intro entry hentry
    rcases List.mem_append.mp hentry with hentry | hentry
    · exact fixed_ruleEntries rule entry hentry
    · obtain rfl := List.mem_singleton.mp hentry
      exact fixJunction_of_op (ofOpcode_pointOp _ _ _) (by decide) (by decide) (by decide)
  have hops : DbWire.append d (E.ops ++ (WOP_JUNCTION.code ||| getWireType type, (j : Int)) ::
      (ruleEntries rule ++
        [((E.startPath pnt.layer (getWireType type) rule).pointOp WOP_COLINEAR ext, ext.getD 0)])) =
      DbWire.append d E.ops ++ (WOP_JUNCTION.code ||| getWireType type, (j : Int) + d.length) ::
      (ruleEntries rule ++
        [((E.startPath pnt.layer (getWireType type) rule).pointOp WOP_COLINEAR ext, ext.getD 0)]) := by
    rw [List.append_cons, dbWireAppend_append d hrest]
    unfold DbWire.append
    rw [List.map_append, List.map_singleton, hfix]
    simp only [List.append_assoc, List.cons_append, List.nil_append]
  unfold junctionStarted
  dsimp only
  rw [startPath_onto, pointOp_onto]
  unfold onto
  rw [hops]

/-- The junction a path starts at is found after another wire as it was before. -/
theorem getPrevPoint_onto (hvalid : E.Valid last) (hvalid' : (E.onto d).Valid last)
    (hshort : ∀ entry ∈ E.ops, WireOp.ofOpcode entry.1 ≠ some WOP_SHORT) {j : Nat} {pnt : WirePoint}
    (h : getPrevPoint tech E.ops j true = some pnt) :
    getPrevPoint tech (E.onto d).ops ((j : Int) + d.length).toNat true = some pnt := by
  have hj : ((j : Int) + d.length).toNat = d.length + j := by omega
  rw [hj]
  exact getPrevPoint_append_shift hvalid.backward hvalid'.backward hshort h

theorem newPathJunction_ok {jctId : Int} {wireType : UInt8} {rule : Option DbTechLayerRule}
    {pnt : WirePoint} (hj : 0 ≤ jctId ∧ jctId < E.idx)
    (hpnt : getPrevPoint tech E.ops jctId.toNat true = some pnt) (ext : Option Int) :
    E.newPathJunction tech jctId wireType rule (if ext.isSome then WOP_EXTENSION else 0)
      (ext.getD 0) = .ok (E.junctionStarted pnt jctId wireType rule ext) := by
  rw [newPathJunction, if_pos hj, hpnt]
  cases rule with
  | none =>
      cases ext <;>
        simp [junctionStarted, startPath, addOp, initPath, ruleEntries, pointOp, widthFlag] <;> rfl
  | some rule =>
      have hoid : rule.oid ≠ 0 := Nat.ne_of_gt rule.oid_pos
      cases ext <;>
        simp [junctionStarted, startPath, addOp, initPathRule, ruleEntries, pointOp, widthFlag, hoid] <;>
        rfl

theorem junctionPath_onto (hvalid : E.Valid last) (hvalid' : (E.onto d).Valid last)
    (hshort : ∀ entry ∈ E.ops, WireOp.ofOpcode entry.1 ≠ some WOP_SHORT) {j : Nat} (hj : j < E.idx)
    {pnt : WirePoint} (hpnt : getPrevPoint tech E.ops j true = some pnt) (type : Option DbWireType)
    (rule : Option DbTechLayerRule) (ext : Option Int) :
    (E.onto d).newPathJunction tech ((j : Int) + d.length) ((E.onto d).givenType type) rule
      (if ext.isSome then WOP_EXTENSION else 0) (ext.getD 0) =
      .ok ((E.junctionStarted pnt j (E.givenType type) rule ext).onto d) := by
  have hpnt' : getPrevPoint tech (E.onto d).ops ((j : Int) + d.length).toNat true = some pnt :=
    getPrevPoint_onto hvalid hvalid' hshort hpnt
  have hidx := E.onto_idx d
  rw [newPathJunction_ok (by omega) hpnt' ext, hvalid'.givenType, hvalid.givenType,
    junctionStarted_onto]

theorem addRect_onto {deltaX1 deltaY1 deltaX2 deltaY2 : Int}
    (h : E.addRect deltaX1 deltaY1 deltaX2 deltaY2 = .ok E') :
    (E.onto d).addRect deltaX1 deltaY1 deltaX2 deltaY2 = .ok (E'.onto d) := by
  unfold addRect at h ⊢
  rw [onto_pointCnt]
  split at h
  · cases h
  · rename_i hcnt
    obtain rfl := Except.ok.inj h
    rw [if_neg hcnt, addOp_onto (WireOp.ofOpcode_code WOP_RECT) (by decide) (by decide) (by decide),
      addOp_onto (WireOp.ofOpcode_code WOP_OPERAND) (by decide) (by decide) (by decide),
      addOp_onto (WireOp.ofOpcode_code WOP_OPERAND) (by decide) (by decide) (by decide),
      addOp_onto (WireOp.ofOpcode_code WOP_OPERAND) (by decide) (by decide) (by decide)]
    rfl

theorem addTerm_onto {op : WireOp} {term : Nat} (hop : op = WOP_ITERM ∨ op = WOP_BTERM)
    (h : E.addTerm op term = .ok E') : (E.onto d).addTerm op term = .ok (E'.onto d) := by
  unfold addTerm at h ⊢
  rw [onto_pointCnt]
  split at h
  · cases h
  · rename_i hcnt
    obtain rfl := Except.ok.inj h
    rw [if_neg hcnt]
    refine congrArg Except.ok (addOp_onto (WireOp.ofOpcode_code op) ?_ ?_ ?_ term) <;>
      rcases hop with rfl | rfl <;> decide

theorem color_onto {op : WireOp} (hop : op = WOP_COLOR ∨ op = WOP_VIACOLOR) (value : Int) :
    (E.onto d).addOp op.code value = (E.addOp op.code value).onto d := by
  refine addOp_onto (WireOp.ofOpcode_code op) ?_ ?_ ?_ value <;> rcases hop with rfl | rfl <;> decide

theorem setColor_onto {maskColor : UInt8} (h : E.setColor maskColor = .ok E') :
    (E.onto d).setColor maskColor = .ok (E'.onto d) := by
  unfold setColor at h ⊢
  split at h
  · cases h
  · rename_i hrange
    obtain rfl := Except.ok.inj h
    rw [if_neg hrange, color_onto (Or.inl rfl)]
    rfl

theorem setViaColor_onto {bottomColor cutColor topColor : UInt8}
    (h : E.setViaColor bottomColor cutColor topColor = .ok E') :
    (E.onto d).setViaColor bottomColor cutColor topColor = .ok (E'.onto d) := by
  unfold setViaColor at h ⊢
  split at h
  · cases h
  · obtain rfl := Except.ok.inj h
    exact congrArg Except.ok (color_onto (Or.inr rfl) _)

/-- A call that returns no junction id. -/
theorem void_ok {m : Except WireError DbWireEncoder} (h : m = .ok E) :
    (m >>= fun E => pure (E, 0) : Except WireError (DbWireEncoder × Nat)) = .ok (E, 0) := by
  rw [h]
  rfl

theorem ruleElements_shift (rule : Option DbTechLayerRule) (n : Nat) :
    (EncoderCall.ruleElements rule).map (WireElement.shift n) = EncoderCall.ruleElements rule := by
  cases rule <;> rfl

theorem junctionStarted_idx_pos (E : DbWireEncoder) (pnt : WirePoint) (j : Int) (wireType : UInt8)
    (rule : Option DbTechLayerRule) (ext : Option Int) :
    0 < (E.junctionStarted pnt j wireType rule ext).idx := by
  unfold idx junctionStarted
  rw [List.length_append, List.length_cons]
  exact Nat.add_pos_right _ (Nat.succ_pos _)

/-- After another wire, a call that starts no short and no virtual wire adds its elements with the
junction ids shifted. -/
theorem perform_onto (hvalid : E.Valid last) (hvalid' : (E.onto d).Valid last)
    (hshort : ∀ entry ∈ E.ops, WireOp.ofOpcode entry.1 ≠ some WOP_SHORT) {call : EncoderCall} {id : Nat}
    (hcall : E.perform tech call = .ok (E', id)) (hno : call.isOffset = false) :
    ∃ id', (E.onto d).perform tech (call.shift d.length) = .ok (E'.onto d, id') ∧
      ∀ type, (call.shift d.length).elements (E'.onto d) id' type =
        (call.elements E' id type).map (WireElement.shift d.length) := by
  have hcast : ∀ n : Nat, ((d.length + n : Nat) : Int) = (n : Int) + d.length := fun n => by
    omega
  have hlast : ∀ {P : DbWireEncoder}, 0 < P.idx →
      (((P.onto d).idx - 1 : Nat) : Int) = ((P.idx - 1 : Nat) : Int) + d.length := by
    intro P hpos
    rw [onto_idx, Nat.add_sub_assoc hpos, hcast]
  cases call with
  | addPoint x y property =>
      refine ⟨d.length + id, addPoint_onto hvalid.rule x y property hcall, fun type => ?_⟩
      simp only [EncoderCall.shift, EncoderCall.elements, hcast]
      rfl
  | addPointExt x y ext property =>
      refine ⟨d.length + id, addPointExt_onto hvalid.rule x y property ext hcall, fun type => ?_⟩
      simp only [EncoderCall.shift, EncoderCall.elements, hcast]
      rfl
  | addVia via =>
      refine ⟨d.length + id, addVia_onto via hcall, fun type => ?_⟩
      simp only [EncoderCall.shift, EncoderCall.elements, hcast]
      rfl
  | addTechVia via =>
      refine ⟨d.length + id, addTechVia_onto via hcall, fun type => ?_⟩
      simp only [EncoderCall.shift, EncoderCall.elements, hcast]
      rfl
  | addRect deltaX1 deltaY1 deltaX2 deltaY2 =>
      exact ⟨0, void_ok (addRect_onto (ok_of_void hcall)), fun type => rfl⟩
  | setColor maskColor => exact ⟨0, void_ok (setColor_onto (ok_of_void hcall)), fun type => rfl⟩
  | clearColor =>
      cases hcall
      exact ⟨0, congrArg (fun P => Except.ok (P, 0)) (color_onto (Or.inl rfl) 0), fun type => rfl⟩
  | setViaColor bottomColor cutColor topColor =>
      exact ⟨0, void_ok (setViaColor_onto (ok_of_void hcall)), fun type => rfl⟩
  | clearViaColor =>
      cases hcall
      exact ⟨0, congrArg (fun P => Except.ok (P, 0)) (color_onto (Or.inr rfl) 0), fun type => rfl⟩
  | addITerm iterm =>
      exact ⟨0, void_ok (addTerm_onto (Or.inl rfl) (ok_of_void hcall)), fun type => rfl⟩
  | addBTerm bterm =>
      exact ⟨0, void_ok (addTerm_onto (Or.inr rfl) (ok_of_void hcall)), fun type => rfl⟩
  | newPath layer type =>
      cases hcall
      refine ⟨0, congrArg (fun P => Except.ok (P, 0)) ?_, fun type => rfl⟩
      rw [newPath_eq, newPath_eq]
      exact pathStarted_onto layer _ none
        (fixed_cons (ofOpcode_or_getWireType _ type) (by decide) (by decide) (by decide) fixed_nil)
  | newPathRule layer type rule =>
      cases hcall
      refine ⟨0, congrArg (fun P => Except.ok (P, 0)) ?_, fun type => rfl⟩
      rw [newPathRule_eq, newPathRule_eq]
      exact pathStarted_onto layer _ (some rule)
        (fixed_cons (ofOpcode_or_getWireType _ type) (by decide) (by decide) (by decide)
          (fixed_ruleEntries _))
  | newPathShort jctId layer type rule => cases hno
  | newPathVirtualWire jctId layer type rule => cases hno
  | newPathFrom jctId type rule =>
      obtain ⟨j, pnt, rfl, hj, hpnt, rfl⟩ := newPathFrom_cases (ok_of_void hcall)
      refine ⟨0, void_ok (junctionPath_onto hvalid hvalid' hshort hj hpnt type rule none),
        fun type' => ?_⟩
      simp only [EncoderCall.shift, EncoderCall.elements]
      rw [hlast (junctionStarted_idx_pos E pnt j _ rule none), List.map_cons, List.map_append,
        ruleElements_shift]
      rfl
  | newPathExt jctId ext type rule =>
      obtain ⟨j, pnt, rfl, hj, hpnt, rfl⟩ := newPathExt_cases (ok_of_void hcall)
      refine ⟨0, void_ok (junctionPath_onto hvalid hvalid' hshort hj hpnt type rule (some ext)),
        fun type' => ?_⟩
      simp only [EncoderCall.shift, EncoderCall.elements]
      rw [hlast (junctionStarted_idx_pos E pnt j _ rule (some ext)), List.map_cons, List.map_append,
        ruleElements_shift]
      rfl

theorem type?_shift (call : EncoderCall) (n : Nat) : (call.shift n).type? = call.type? := by
  cases call <;> rfl

theorem perform_noShort (hvalid : E.Valid last) {call : EncoderCall} {id : Nat}
    (hcall : E.perform tech call = .ok (E', id)) (hno : call.isOffset = false)
    (hshort : ∀ entry ∈ E.ops, WireOp.ofOpcode entry.1 ≠ some WOP_SHORT) :
    ∀ entry ∈ E'.ops, WireOp.ofOpcode entry.1 ≠ some WOP_SHORT := by
  obtain ⟨entries, hops, hof⟩ := hvalid.perform_ops hcall
  have hmem : WOP_SHORT ∉ call.opcodes := by
    cases call <;> first | (simp [EncoderCall.opcodes]; done) | cases hno
  intro entry hentry
  rw [hops] at hentry
  rcases List.mem_append.mp hentry with hentry | hentry
  · exact hshort entry hentry
  · obtain ⟨op, hop, hcode⟩ := hof entry hentry
    rw [hcode]
    exact fun heq => hmem (Option.some.inj heq ▸ hop)

/-- Encoded after another wire, the calls add their elements with the junction ids shifted. -/
theorem performAll_onto (hvalid : E.Valid last) (hvalid' : (E.onto d).Valid last)
    (hshort : ∀ entry ∈ E.ops, WireOp.ofOpcode entry.1 ≠ some WOP_SHORT) {calls : List EncoderCall}
    {elements : List WireElement} (hcalls : E.performAll tech last calls = .ok (E', elements))
    (hno : ∀ call ∈ calls, call.isOffset = false) :
    (E.onto d).performAll tech last (calls.map (EncoderCall.shift d.length)) =
      .ok (E'.onto d, elements.map (WireElement.shift d.length)) := by
  induction calls generalizing E last elements with
  | nil =>
      cases hcalls
      rfl
  | cons call calls ih =>
      obtain ⟨E₁, id, rest, hcall, hrest, rfl⟩ := performAll_cons hcalls
      obtain ⟨hhead, htail⟩ := List.forall_mem_cons.mp hno
      obtain ⟨id', hcall', helem⟩ := perform_onto hvalid hvalid' hshort hcall hhead
      obtain ⟨-, -, -, hvalid₁⟩ := hvalid.perform hcall
      obtain ⟨-, -, -, hvalid₁'⟩ := hvalid'.perform hcall'
      rw [type?_shift] at hvalid₁'
      have hih := ih hvalid₁ hvalid₁' (perform_noShort hvalid hcall hhead hshort) hrest htail
      rw [List.map_cons, performAll, hcall']
      change ((E₁.onto d).performAll tech ((call.shift d.length).type?.getD last) _ >>= _) = _
      rw [type?_shift, hih, List.map_append, ← helem]
      rfl

end DbWireEncoder

end OpenRoad.Db
