import OpenRoad.DbWireEncoder

/-!
What the calls of the encoder append. A point is one entry, or two at the start of a path, with an
operand for the extension of a point that is not colinear; the rule of the path and the property
follow. A path start is one entry with the junction it names, the rule, and the colinear point of a
junction.
-/

namespace OpenRoad.Db

open WireOp

namespace DbWireEncoder

/-! ### Entries -/

/-- The opcode of a point with or without an extension. -/
def pointOp (E : DbWireEncoder) (op : WireOp) : Option Int → UInt8
  | none => op.code ||| E.widthFlag
  | some _ => op.code ||| (WOP_EXTENSION ||| E.widthFlag)

theorem widthFlag_cases (E : DbWireEncoder) : E.widthFlag = WOP_DEFAULT_WIDTH ∨ E.widthFlag = 0 := by
  unfold widthFlag
  split
  · exact Or.inl rfl
  · exact Or.inr rfl

@[simp] theorem ofOpcode_pointOp (E : DbWireEncoder) (op : WireOp) (ext : Option Int) :
    WireOp.ofOpcode (E.pointOp op ext) = some op := by
  cases ext with
  | none =>
      apply WireOp.ofOpcode_or
      rcases E.widthFlag_cases with h | h <;> rw [h] <;> decide
  | some e =>
      apply WireOp.ofOpcode_or
      rcases E.widthFlag_cases with h | h <;> rw [h] <;> decide

@[simp] theorem hasFlag_pointOp (E : DbWireEncoder) (op : WireOp) (ext : Option Int) :
    hasFlag (E.pointOp op ext) WOP_EXTENSION = ext.isSome := by
  cases ext with
  | none => rcases E.widthFlag_cases with h | h <;> rw [pointOp, h] <;> cases op <;> rfl
  | some e => rcases E.widthFlag_cases with h | h <;> rw [pointOp, h] <;> cases op <;> rfl

end DbWireEncoder

/-- The operand that holds an extension. -/
def extEntries : Option Int → List WireEntry
  | none => []
  | some ext => [(WOP_OPERAND.code, ext)]

/-- The rule of a path start. -/
def ruleEntries : Option DbTechLayerRule → List WireEntry
  | none => []
  | some rule => [(rule.opcode, rule.oid)]

@[simp] theorem DbTechLayerRule.ofOpcode_opcode (rule : DbTechLayerRule) :
    WireOp.ofOpcode rule.opcode = some WOP_RULE := by
  unfold opcode
  split <;> decide

@[simp] theorem DbTechLayerRule.hasFlag_opcode (rule : DbTechLayerRule) :
    hasFlag rule.opcode WOP_BLOCK_RULE = rule.isBlockRule := by
  unfold opcode
  split <;> simp_all <;> rfl

theorem getWireType_mask (type : DbWireType) : getWireType type &&& WOP_OPCODE_MASK = 0 := by
  cases type <;> decide

@[simp] theorem ofOpcode_or_getWireType (op : WireOp) (type : DbWireType) :
    WireOp.ofOpcode (op.code ||| getWireType type) = some op :=
  WireOp.ofOpcode_or op (getWireType_mask type)

namespace DbWireEncoder

/-! ### Points -/

/-- The rule inserted after a point. -/
def insertedRule (E : DbWireEncoder) : List WireEntry :=
  if E.nonDefaultRule ≠ 0 ∧ E.pointCnt ≠ 0 ∧
      E.pointCnt &&& (WOP_NON_DEFAULT_WIDTH_POINT_CNT - 1) = 0 then
    [(E.ruleOpcode, E.nonDefaultRule)]
  else []

def propertyEntries (E : DbWireEncoder) (property : Nat) : List WireEntry :=
  if E.pointCnt ≠ 1 then [(WOP_PROPERTY.code, (property : Int))] else []

theorem insertRule_eq (E : DbWireEncoder) :
    E.insertRule = { E with ops := E.ops ++ E.insertedRule } := by
  unfold insertRule insertedRule
  split
  · rfl
  · rw [List.append_nil]

theorem addProperty_eq (E : DbWireEncoder) (property : Nat) :
    E.addProperty property = { E with ops := E.ops ++ E.propertyEntries property } := by
  unfold addProperty propertyEntries
  split
  · rfl
  · rw [List.append_nil]

/-- The point itself is added to the path; `id` is its junction id. -/
inductive PointAdded (E : DbWireEncoder) (x y : Int) (ext : Option Int) :
    DbWireEncoder → Nat → Prop where
  | first (hcnt : E.pointCnt = 0) :
      PointAdded E x y ext { E with
        ops := E.ops ++ (E.pointOp WOP_X none, x) :: (E.pointOp WOP_Y ext, y) :: extEntries ext
        x, y, pointCnt := 1 } (E.idx + 1)
  | colinear (hcnt : E.pointCnt ≠ 0) (hx : E.x = x) (hy : E.y = y)
      (hrule : ext.isSome → E.colinearExtRule1) :
      PointAdded E x y ext { E with
        ops := E.ops ++ [(E.pointOp WOP_COLINEAR ext, ext.getD 0)] } E.idx
  | horizontal (hcnt : E.pointCnt ≠ 0) (hx : E.x ≠ x) (hy : E.y = y) :
      PointAdded E x y ext { E with
        ops := E.ops ++ (E.pointOp WOP_X ext, x) :: extEntries ext
        x, pointCnt := E.pointCnt + 1 } E.idx
  | vertical (hcnt : E.pointCnt ≠ 0) (hx : E.x = x) (hy : E.y ≠ y) :
      PointAdded E x y ext { E with
        ops := E.ops ++ (E.pointOp WOP_Y ext, y) :: extEntries ext
        y, pointCnt := E.pointCnt + 1 } E.idx

/-- The encoder after the point with the rule and the property that follow it. -/
def pointEnd (E : DbWireEncoder) (property : Nat) (prevExt : Bool) : DbWireEncoder :=
  { E with
    ops := E.ops ++ (E.insertedRule ++ E.propertyEntries property)
    prevExtendedColinearPnt := prevExt }

theorem pointEnd_eq (E : DbWireEncoder) (property : Nat) (prevExt : Bool) :
    { E.insertRule.addProperty property with prevExtendedColinearPnt := prevExt } =
      E.pointEnd property prevExt := by
  rw [insertRule_eq, addProperty_eq, pointEnd, ← List.append_assoc]
  rfl

theorem addPoint_cases {E E' : DbWireEncoder} {x y : Int} {property id : Nat}
    (h : E.addPoint x y property = .ok (E', id)) :
    ∃ E₁ prevExt, PointAdded E x y none E₁ id ∧ E' = E₁.pointEnd property prevExt := by
  by_cases hcnt : E.pointCnt = 0
  · simp only [addPoint, if_pos hcnt] at h
    obtain ⟨rfl, rfl⟩ := Prod.mk.inj (Except.ok.inj h)
    refine ⟨_, false, .first hcnt, ?_⟩
    rw [pointEnd_eq]
    simp [addOp, pointOp, extEntries, hcnt]
  by_cases hxy : E.x = x ∧ E.y = y
  · simp only [addPoint, if_neg hcnt, if_pos hxy] at h
    obtain ⟨rfl, rfl⟩ := Prod.mk.inj (Except.ok.inj h)
    exact ⟨_, false, .colinear hcnt hxy.1 hxy.2 (by simp), pointEnd_eq ..⟩
  by_cases hy : E.y = y
  · simp only [addPoint, if_neg hcnt, if_neg hxy, if_pos hy] at h
    obtain ⟨rfl, rfl⟩ := Prod.mk.inj (Except.ok.inj h)
    exact ⟨_, false, .horizontal hcnt (fun hx => hxy ⟨hx, hy⟩) hy, pointEnd_eq ..⟩
  by_cases hx : E.x = x
  · simp only [addPoint, if_neg hcnt, if_neg hxy, if_neg hy, if_pos hx] at h
    obtain ⟨rfl, rfl⟩ := Prod.mk.inj (Except.ok.inj h)
    exact ⟨_, false, .vertical hcnt hx hy, pointEnd_eq ..⟩
  · simp only [addPoint, if_neg hcnt, if_neg hxy, if_neg hy, if_neg hx] at h
    cases h

theorem addPointExt_cases {E E' : DbWireEncoder} {x y ext : Int} {property id : Nat}
    (h : E.addPointExt x y ext property = .ok (E', id)) :
    ∃ E₁ prevExt, PointAdded E x y (some ext) E₁ id ∧ E' = E₁.pointEnd property prevExt := by
  by_cases hcnt : E.pointCnt = 0
  · simp only [addPointExt, if_pos hcnt] at h
    obtain ⟨rfl, rfl⟩ := Prod.mk.inj (Except.ok.inj h)
    refine ⟨_, false, .first hcnt, ?_⟩
    rw [← pointEnd_eq, insertRule_eq, insertRule_eq, addProperty_eq, addProperty_eq]
    simp [addOp, pointOp, extEntries, hcnt, insertedRule, propertyEntries]
  by_cases hxy : E.x = x ∧ E.y = y
  · by_cases hrule : (E.colinearExtRule1 && E.colinearExtRule2) = true
    · simp only [addPointExt, if_neg hcnt, if_pos hxy, if_pos hrule] at h
      obtain ⟨rfl, rfl⟩ := Prod.mk.inj (Except.ok.inj h)
      refine ⟨_, true, .colinear hcnt hxy.1 hxy.2 fun _ => (Bool.and_eq_true _ _ ▸ hrule).1, ?_⟩
      rw [← pointEnd_eq, insertRule_eq, insertRule_eq, addProperty_eq, addProperty_eq]
      rfl
    · simp only [addPointExt, if_neg hcnt, if_pos hxy, if_neg hrule] at h
      cases h
  by_cases hy : E.y = y
  · simp only [addPointExt, if_neg hcnt, if_neg hxy, if_pos hy] at h
    obtain ⟨rfl, rfl⟩ := Prod.mk.inj (Except.ok.inj h)
    refine ⟨_, false, .horizontal hcnt (fun hx => hxy ⟨hx, hy⟩) hy, ?_⟩
    rw [← pointEnd_eq, insertRule_eq, insertRule_eq, addProperty_eq, addProperty_eq]
    simp [addOp, pointOp, extEntries, insertedRule, propertyEntries]
  by_cases hx : E.x = x
  · simp only [addPointExt, if_neg hcnt, if_neg hxy, if_neg hy, if_pos hx] at h
    obtain ⟨rfl, rfl⟩ := Prod.mk.inj (Except.ok.inj h)
    refine ⟨_, false, .vertical hcnt hx hy, ?_⟩
    rw [← pointEnd_eq, insertRule_eq, insertRule_eq, addProperty_eq, addProperty_eq]
    simp [addOp, pointOp, extEntries, insertedRule, propertyEntries]
  · simp only [addPointExt, if_neg hcnt, if_neg hxy, if_neg hy, if_neg hx] at h
    cases h

/-! ### Path starts -/

/-- `initPath` with or without a rule. -/
def startPath (E : DbWireEncoder) (layer : Nat) (wireType : UInt8) :
    Option DbTechLayerRule → DbWireEncoder
  | none => E.initPath layer wireType
  | some rule => E.initPathRule layer wireType rule

section

variable (E : DbWireEncoder) (layer : Nat) (wireType : UInt8) (rule : Option DbTechLayerRule)

@[simp] theorem startPath_layer : (E.startPath layer wireType rule).layer = layer := by
  cases rule <;> rfl

@[simp] theorem startPath_wireType : (E.startPath layer wireType rule).wireType = wireType := by
  cases rule <;> rfl

@[simp] theorem startPath_pointCnt : (E.startPath layer wireType rule).pointCnt = 0 := by
  cases rule <;> rfl

@[simp] theorem startPath_nonDefaultRule :
    (E.startPath layer wireType rule).nonDefaultRule = (rule.map (·.oid)).getD 0 := by
  cases rule <;> rfl

@[simp] theorem startPath_ruleOpcode :
    (E.startPath layer wireType rule).ruleOpcode = (rule.map (·.opcode)).getD 0 := by
  cases rule <;> rfl

end

/-- The encoder after a path start that appends `entries`. -/
def pathStarted (E : DbWireEncoder) (layer : Nat) (wireType : UInt8) (rule : Option DbTechLayerRule)
    (entries : List WireEntry) : DbWireEncoder :=
  { E.startPath layer wireType rule with ops := E.ops ++ entries }

/-- The encoder after a path start at a junction. -/
def junctionStarted (E : DbWireEncoder) (pnt : WirePoint) (jctId : Int) (wireType : UInt8)
    (rule : Option DbTechLayerRule) (ext : Option Int) : DbWireEncoder :=
  let S := E.startPath pnt.layer wireType rule
  { S with
    x := pnt.x
    y := pnt.y
    pointCnt := 1
    ops := E.ops ++ (WOP_JUNCTION.code ||| wireType, jctId) ::
      (ruleEntries rule ++ [(S.pointOp WOP_COLINEAR ext, ext.getD 0)]) }

theorem newPath_eq (E : DbWireEncoder) (layer : Nat) (type : DbWireType) :
    E.newPath layer type = E.pathStarted layer (getWireType type) none
      [(WOP_PATH.code ||| getWireType type, (layer : Int))] := rfl

theorem newPathRule_eq (E : DbWireEncoder) (layer : Nat) (type : DbWireType)
    (rule : DbTechLayerRule) :
    E.newPathRule layer type rule = E.pathStarted layer (getWireType type) (some rule)
      ((WOP_PATH.code ||| getWireType type, (layer : Int)) :: ruleEntries (some rule)) := by
  simp [newPathRule, pathStarted, startPath, addOp, initPathRule, ruleEntries]

theorem newPathOffset_cases {E E' : DbWireEncoder} {op : WireOp} {jctId : Int} {layer : Nat}
    {type : DbWireType} {rule : Option DbTechLayerRule}
    (h : E.newPathOffset op jctId layer type rule = .ok E') :
    (∃ j : Nat, jctId = j ∧ j < E.idx) ∧
    E' = E.pathStarted layer (getWireType type) rule
      ((op.code ||| getWireType type, (layer : Int)) :: (WOP_OPERAND.code, jctId) ::
        ruleEntries rule) := by
  by_cases hj : 0 ≤ jctId ∧ jctId < E.idx
  · unfold newPathOffset at h
    rw [if_pos hj] at h
    refine ⟨⟨jctId.toNat, by omega, by omega⟩, ?_⟩
    cases rule with
    | none =>
        obtain rfl := Except.ok.inj h
        simp [pathStarted, startPath, addOp, initPath, ruleEntries]
    | some rule =>
        obtain rfl := Except.ok.inj h
        simp [pathStarted, startPath, addOp, initPathRule, ruleEntries]
  · unfold newPathOffset at h
    rw [if_neg hj] at h
    cases h

theorem newPathJunction_cases {tech : DbTech} {E E' : DbWireEncoder} {jctId : Int} {wireType : UInt8}
    {rule : Option DbTechLayerRule} {extFlag : UInt8} {ext : Int}
    (h : E.newPathJunction tech jctId wireType rule extFlag ext = .ok E') (ext' : Option Int)
    (hflag : extFlag = if ext'.isSome then WOP_EXTENSION else 0) (hext : ext = ext'.getD 0) :
    ∃ (j : Nat) (pnt : WirePoint), jctId = j ∧ j < E.idx ∧
      getPrevPoint tech E.ops j true = some pnt ∧
      E' = E.junctionStarted pnt jctId wireType rule ext' := by
  by_cases hj : 0 ≤ jctId ∧ jctId < E.idx
  · rw [newPathJunction, if_pos hj] at h
    cases hpnt : getPrevPoint tech E.ops jctId.toNat true with
    | none =>
        rw [hpnt] at h
        cases h
    | some pnt =>
        rw [hpnt] at h
        refine ⟨jctId.toNat, pnt, by omega, by omega, hpnt, ?_⟩
        cases rule with
        | none =>
            obtain rfl := Except.ok.inj h
            cases ext' <;>
              simp [junctionStarted, startPath, addOp, initPath, ruleEntries, pointOp, widthFlag,
                hflag, hext]
        | some rule =>
            obtain rfl := Except.ok.inj h
            have hoid : rule.oid ≠ 0 := Nat.ne_of_gt rule.oid_pos
            cases ext' <;>
              simp [junctionStarted, startPath, addOp, initPathRule, ruleEntries, pointOp, widthFlag,
                hflag, hext, hoid]
  · rw [newPathJunction, if_neg hj] at h
    cases h

theorem newPathFrom_cases {tech : DbTech} {E E' : DbWireEncoder} {jctId : Int}
    {type : Option DbWireType} {rule : Option DbTechLayerRule}
    (h : E.newPathFrom tech jctId type rule = .ok E') :
    ∃ (j : Nat) (pnt : WirePoint), jctId = j ∧ j < E.idx ∧
      getPrevPoint tech E.ops j true = some pnt ∧
      E' = E.junctionStarted pnt jctId (E.givenType type) rule none :=
  newPathJunction_cases h none rfl rfl

theorem newPathExt_cases {tech : DbTech} {E E' : DbWireEncoder} {jctId ext : Int}
    {type : Option DbWireType} {rule : Option DbTechLayerRule}
    (h : E.newPathExt tech jctId ext type rule = .ok E') :
    ∃ (j : Nat) (pnt : WirePoint), jctId = j ∧ j < E.idx ∧
      getPrevPoint tech E.ops j true = some pnt ∧
      E' = E.junctionStarted pnt jctId (E.givenType type) rule (some ext) :=
  newPathJunction_cases h (some ext) rfl rfl

/-! ### Vias -/

/-- The opcode of a via through which the path goes from `layer` on. -/
def viaOp (op : WireOp) (via : DbVia) (layer : Nat) : UInt8 :=
  if via.topLayer = layer then op.code else op.code ||| WOP_VIA_EXIT_TOP

@[simp] theorem ofOpcode_viaOp (op : WireOp) (via : DbVia) (layer : Nat) :
    WireOp.ofOpcode (viaOp op via layer) = some op := by
  unfold viaOp
  split
  · exact WireOp.ofOpcode_code op
  · exact WireOp.ofOpcode_or op (by decide)

theorem addVia_cases {tech : DbTech} {E E' : DbWireEncoder} {via id : Nat}
    (h : E.addVia tech via = .ok (E', id)) :
    E.pointCnt ≠ 0 ∧ id = E.idx ∧
    E' = { E with
      ops := E.ops ++ [(viaOp WOP_VIA (tech.getVia via) E.layer, (via : Int))]
      layer := (tech.getVia via).exitLayer (viaOp WOP_VIA (tech.getVia via) E.layer)
      viaCnt := E.viaCnt + 1 } := by
  by_cases hcnt : E.pointCnt = 0
  · simp only [addVia, if_pos hcnt] at h
    cases h
  by_cases htop : (tech.getVia via).topLayer = E.layer
  · simp only [addVia, if_neg hcnt, if_pos htop] at h
    obtain ⟨rfl, rfl⟩ := Prod.mk.inj (Except.ok.inj h)
    refine ⟨hcnt, rfl, ?_⟩
    rw [viaOp, if_pos htop]
    rfl
  by_cases hbot : (tech.getVia via).bottomLayer = E.layer
  · simp only [addVia, if_neg hcnt, if_neg htop, if_pos hbot] at h
    obtain ⟨rfl, rfl⟩ := Prod.mk.inj (Except.ok.inj h)
    refine ⟨hcnt, rfl, ?_⟩
    rw [viaOp, if_neg htop]
    rfl
  · simp only [addVia, if_neg hcnt, if_neg htop, if_neg hbot] at h
    cases h

theorem addTechVia_cases {tech : DbTech} {E E' : DbWireEncoder} {via id : Nat}
    (h : E.addTechVia tech via = .ok (E', id)) :
    E.pointCnt ≠ 0 ∧ id = E.idx ∧
    E' = { E with
      ops := E.ops ++ [(viaOp WOP_TECH_VIA (tech.getTechVia via) E.layer, (via : Int)),
        (WOP_COLOR.code, 0)]
      layer := (tech.getTechVia via).exitLayer (viaOp WOP_TECH_VIA (tech.getTechVia via) E.layer)
      viaCnt := E.viaCnt + 1 } := by
  by_cases hcnt : E.pointCnt = 0
  · simp only [addTechVia, if_pos hcnt] at h
    cases h
  by_cases htop : (tech.getTechVia via).topLayer = E.layer
  · simp only [addTechVia, if_neg hcnt, if_pos htop] at h
    obtain ⟨rfl, rfl⟩ := Prod.mk.inj (Except.ok.inj h)
    refine ⟨hcnt, rfl, ?_⟩
    rw [viaOp, if_pos htop]
    simp only [clearColor, addOp, List.append_assoc]
    rfl
  by_cases hbot : (tech.getTechVia via).bottomLayer = E.layer
  · simp only [addTechVia, if_neg hcnt, if_neg htop, if_pos hbot] at h
    obtain ⟨rfl, rfl⟩ := Prod.mk.inj (Except.ok.inj h)
    refine ⟨hcnt, rfl, ?_⟩
    rw [viaOp, if_neg htop]
    simp only [clearColor, addOp, List.append_assoc]
    rfl
  · simp only [addTechVia, if_neg hcnt, if_neg htop, if_neg hbot] at h
    cases h

/-! ### Rects, terms and colors -/

theorem addRect_cases {E E' : DbWireEncoder} {deltaX1 deltaY1 deltaX2 deltaY2 : Int}
    (h : E.addRect deltaX1 deltaY1 deltaX2 deltaY2 = .ok E') :
    E' = { E with
      ops := E.ops ++ [(WOP_RECT.code, deltaX1), (WOP_OPERAND.code, deltaY1),
        (WOP_OPERAND.code, deltaX2), (WOP_OPERAND.code, deltaY2)] } := by
  unfold addRect at h
  split at h
  · cases h
  · obtain rfl := Except.ok.inj h
    simp [addOp]

theorem addTerm_cases {E E' : DbWireEncoder} {op : WireOp} {term : Nat}
    (h : E.addTerm op term = .ok E') :
    E' = { E with ops := E.ops ++ [(op.code, (term : Int))] } := by
  unfold addTerm at h
  split at h
  · cases h
  · exact (Except.ok.inj h).symm

theorem setColor_cases {E E' : DbWireEncoder} {maskColor : UInt8}
    (h : E.setColor maskColor = .ok E') :
    ∃ value : Int, E' = { E with ops := E.ops ++ [(WOP_COLOR.code, value)] } := by
  unfold setColor at h
  split at h
  · cases h
  · exact ⟨_, (Except.ok.inj h).symm⟩

theorem setViaColor_cases {E E' : DbWireEncoder} {bottomColor cutColor topColor : UInt8}
    (h : E.setViaColor bottomColor cutColor topColor = .ok E') :
    ∃ value : Int, E' = { E with ops := E.ops ++ [(WOP_VIACOLOR.code, value)] } := by
  unfold setViaColor at h
  split at h
  · cases h
  · exact ⟨_, (Except.ok.inj h).symm⟩

/-- A call that returns no junction id. -/
theorem ok_of_void {m : Except WireError DbWireEncoder} {E' : DbWireEncoder} {id : Nat}
    (h : (m >>= fun E => pure (E, 0) : Except WireError (DbWireEncoder × Nat)) = .ok (E', id)) :
    m = .ok E' := by
  cases m with
  | error e => cases h
  | ok E =>
      cases h
      rfl

end DbWireEncoder

/-! ### What holds of the encoder -/

/-- The wire type of a path start that is given one. -/
def EncoderCall.type? : EncoderCall → Option DbWireType
  | .newPath _ type => some type
  | .newPathRule _ type _ => some type
  | .newPathShort _ _ type _ => some type
  | .newPathVirtualWire _ _ type _ => some type
  | .newPathFrom _ type _ => type
  | .newPathExt _ _ type _ => type
  | _ => none

/-- Entries that are appended at `n`: there is a first one, which is no rule, and junctions name
entries before `n`. -/
structure Appendable (n : Nat) (entries : List WireEntry) : Prop where
  head : ∃ entry rest, entries = entry :: rest ∧ WireOp.ofOpcode entry.1 ≠ some WOP_RULE
  junctions : ∀ entry ∈ entries, WireOp.ofOpcode entry.1 = some WOP_JUNCTION →
    ∃ j : Nat, entry.2 = (j : Int) ∧ j < n

theorem BackwardJunctions.append {ops entries : List WireEntry} (h : BackwardJunctions ops)
    (happ : Appendable ops.length entries) : BackwardJunctions (ops ++ entries) := by
  intro i entry hentry hjunction
  by_cases hi : i < ops.length
  · rw [List.getElem?_append_left hi] at hentry
    exact h i entry hentry hjunction
  · rw [List.getElem?_append_right (by omega)] at hentry
    obtain ⟨j, hj, hlt⟩ := happ.junctions entry (List.mem_of_getElem? hentry) hjunction
    exact ⟨j, hj, by omega⟩

theorem Appendable.append {n : Nat} {entries more : List WireEntry} (h : Appendable n entries)
    (hmore : ∀ entry ∈ more, WireOp.ofOpcode entry.1 ≠ some WOP_JUNCTION) :
    Appendable n (entries ++ more) := by
  obtain ⟨entry, rest, rfl, hhead⟩ := h.head
  refine ⟨⟨entry, rest ++ more, rfl, hhead⟩, fun e he hjunction => ?_⟩
  rcases List.mem_append.mp he with he | he
  · exact h.junctions e he hjunction
  · exact absurd hjunction (hmore e he)

/-- Entries without a junction. -/
theorem Appendable.of_head {n : Nat} {entry : WireEntry} {rest : List WireEntry}
    (hrule : WireOp.ofOpcode entry.1 ≠ some WOP_RULE)
    (hjunctions : ∀ e ∈ entry :: rest, WireOp.ofOpcode e.1 ≠ some WOP_JUNCTION) :
    Appendable n (entry :: rest) :=
  ⟨⟨entry, rest, rfl, hrule⟩, fun e he h => absurd h (hjunctions e he)⟩

theorem ofOpcode_extEntries {ext : Option Int} : ∀ entry ∈ extEntries ext,
    WireOp.ofOpcode entry.1 = some WOP_OPERAND := by
  cases ext <;> simp [extEntries]

theorem ofOpcode_ruleEntries {rule : Option DbTechLayerRule} : ∀ entry ∈ ruleEntries rule,
    WireOp.ofOpcode entry.1 = some WOP_RULE := by
  cases rule <;> simp [ruleEntries]

namespace DbWireEncoder

/-- What every call keeps; `last` is the wire type given last. -/
structure Valid (E : DbWireEncoder) (last : DbWireType) : Prop where
  backward : BackwardJunctions E.ops
  rule : E.nonDefaultRule ≠ 0 → WireOp.ofOpcode E.ruleOpcode = some WOP_RULE
  wireType : E.wireType = getWireType last

theorem Valid.ofOpcode_insertedRule {E : DbWireEncoder} {last : DbWireType} (h : E.Valid last) :
    ∀ entry ∈ E.insertedRule, WireOp.ofOpcode entry.1 = some WOP_RULE := by
  unfold insertedRule
  split
  · rename_i hcond
    simpa using h.rule hcond.1
  · simp

theorem ofOpcode_propertyEntries (E : DbWireEncoder) (property : Nat) :
    ∀ entry ∈ E.propertyEntries property, WireOp.ofOpcode entry.1 = some WOP_PROPERTY := by
  unfold propertyEntries
  split <;> simp

theorem Valid.pointAdded {E E₁ : DbWireEncoder} {last : DbWireType} (h : E.Valid last)
    {x y : Int} {ext : Option Int} {id : Nat} (hadd : PointAdded E x y ext E₁ id) :
    ∃ entries, E₁.ops = E.ops ++ entries ∧ Appendable E.idx entries ∧ E₁.Valid last := by
  have hext : ∀ e ∈ extEntries ext, WireOp.ofOpcode e.1 ≠ some WOP_JUNCTION := by
    intro e he
    rw [ofOpcode_extEntries e he]
    decide
  have hkeep : ∀ entries, Appendable E.idx entries →
      BackwardJunctions (E.ops ++ entries) := fun entries happ => h.backward.append happ
  cases hadd with
  | first hcnt =>
      have happ : Appendable E.idx
          ((E.pointOp WOP_X none, x) :: (E.pointOp WOP_Y ext, y) :: extEntries ext) :=
        .of_head (by simp) (by simpa using hext)
      exact ⟨_, rfl, happ, hkeep _ happ, h.rule, h.wireType⟩
  | colinear hcnt hx hy hrule =>
      have happ : Appendable E.idx [(E.pointOp WOP_COLINEAR ext, ext.getD 0)] :=
        .of_head (by simp) (by simp)
      exact ⟨_, rfl, happ, hkeep _ happ, h.rule, h.wireType⟩
  | horizontal hcnt hx hy =>
      have happ : Appendable E.idx ((E.pointOp WOP_X ext, x) :: extEntries ext) :=
        .of_head (by simp) (by simpa using hext)
      exact ⟨_, rfl, happ, hkeep _ happ, h.rule, h.wireType⟩
  | vertical hcnt hx hy =>
      have happ : Appendable E.idx ((E.pointOp WOP_Y ext, y) :: extEntries ext) :=
        .of_head (by simp) (by simpa using hext)
      exact ⟨_, rfl, happ, hkeep _ happ, h.rule, h.wireType⟩

theorem Valid.pointEnd {E E₁ : DbWireEncoder} {last : DbWireType} (h : E.Valid last)
    {x y : Int} {ext : Option Int} {id property : Nat} {prevExt : Bool}
    (hadd : PointAdded E x y ext E₁ id) :
    ∃ entries, (E₁.pointEnd property prevExt).ops = E.ops ++ entries ∧ Appendable E.idx entries ∧
      (E₁.pointEnd property prevExt).Valid last := by
  obtain ⟨entries, hops, happ, hvalid⟩ := h.pointAdded hadd
  have happ' : Appendable E.idx
      (entries ++ (E₁.insertedRule ++ E₁.propertyEntries property)) := by
    refine happ.append fun e he => ?_
    rcases List.mem_append.mp he with he | he
    · rw [hvalid.ofOpcode_insertedRule e he]
      decide
    · rw [E₁.ofOpcode_propertyEntries property e he]
      decide
  have hops' : (E₁.pointEnd property prevExt).ops =
      E.ops ++ (entries ++ (E₁.insertedRule ++ E₁.propertyEntries property)) := by
    rw [DbWireEncoder.pointEnd, hops, List.append_assoc]
  refine ⟨_, hops', happ', ?_, hvalid.rule, hvalid.wireType⟩
  rw [hops']
  exact h.backward.append happ'

theorem Valid.startPath_rule (E : DbWireEncoder) (layer : Nat) (wireType : UInt8)
    (rule : Option DbTechLayerRule) :
    (E.startPath layer wireType rule).nonDefaultRule ≠ 0 →
      WireOp.ofOpcode (E.startPath layer wireType rule).ruleOpcode = some WOP_RULE := by
  intro hne
  cases rule with
  | none => exact absurd rfl hne
  | some rule => exact rule.ofOpcode_opcode

/-- A path start that appends entries without a junction. -/
theorem Valid.pathStarted {E : DbWireEncoder} {last : DbWireType} (h : E.Valid last) (layer : Nat)
    (type : DbWireType) (rule : Option DbTechLayerRule) {entries : List WireEntry}
    (happ : Appendable E.idx entries) :
    (E.pathStarted layer (getWireType type) rule entries).Valid type :=
  ⟨h.backward.append happ, Valid.startPath_rule E layer _ rule, E.startPath_wireType ..⟩

theorem appendable_junction (E : DbWireEncoder) {j : Nat} (hj : j < E.idx) (type : DbWireType)
    (rule : Option DbTechLayerRule) (S : DbWireEncoder) (ext : Option Int) :
    Appendable E.idx ((WOP_JUNCTION.code ||| getWireType type, (j : Int)) ::
      (ruleEntries rule ++ [(S.pointOp WOP_COLINEAR ext, ext.getD 0)])) := by
  refine ⟨⟨_, _, rfl, by simp⟩, fun e he hjunction => ?_⟩
  rcases List.mem_cons.mp he with rfl | he
  · exact ⟨j, rfl, hj⟩
  rcases List.mem_append.mp he with he | he
  · rw [ofOpcode_ruleEntries e he] at hjunction
    cases hjunction
  · obtain rfl := List.mem_singleton.mp he
    rw [ofOpcode_pointOp] at hjunction
    cases hjunction

theorem Valid.givenType {E : DbWireEncoder} {last : DbWireType} (h : E.Valid last)
    (type : Option DbWireType) : E.givenType type = getWireType (type.getD last) := by
  cases type with
  | none => exact h.wireType
  | some type => rfl

theorem Valid.junctionStarted {E : DbWireEncoder} {last : DbWireType} (h : E.Valid last)
    (pnt : WirePoint) {j : Nat} (hj : j < E.idx) (type : Option DbWireType)
    (rule : Option DbTechLayerRule) (ext : Option Int) :
    ∃ entries, (E.junctionStarted pnt j (E.givenType type) rule ext).ops = E.ops ++ entries ∧
      Appendable E.idx entries ∧
      (E.junctionStarted pnt j (E.givenType type) rule ext).Valid (type.getD last) := by
  rw [h.givenType]
  have happ := E.appendable_junction hj (type.getD last) rule
    (E.startPath pnt.layer (getWireType (type.getD last)) rule) ext
  exact ⟨_, rfl, happ, h.backward.append happ, Valid.startPath_rule E pnt.layer _ rule,
    E.startPath_wireType ..⟩

/-- An entry of its own: a color, a term, a via or a rect. -/
theorem Valid.append {E E' : DbWireEncoder} {last : DbWireType} (h : E.Valid last)
    {entries : List WireEntry} (happ : Appendable E.idx entries) (hops : E'.ops = E.ops ++ entries)
    (hrule : E'.nonDefaultRule = E.nonDefaultRule) (hop : E'.ruleOpcode = E.ruleOpcode)
    (htype : E'.wireType = E.wireType) :
    ∃ entries, E'.ops = E.ops ++ entries ∧ Appendable E.idx entries ∧ E'.Valid last := by
  refine ⟨entries, hops, happ, ?_, by rw [hrule, hop]; exact h.rule, htype.trans h.wireType⟩
  rw [hops]
  exact h.backward.append happ

/-- Every call appends entries and keeps the encoder valid. -/
theorem Valid.perform {tech : DbTech} {E E' : DbWireEncoder} {last : DbWireType} (h : E.Valid last)
    {call : EncoderCall} {id : Nat} (hcall : E.perform tech call = .ok (E', id)) :
    ∃ entries, E'.ops = E.ops ++ entries ∧ Appendable E.idx entries ∧
      E'.Valid (call.type?.getD last) := by
  have hoffset : ∀ {op : WireOp} {jctId : Int} {layer : Nat} {type : DbWireType}
      {rule : Option DbTechLayerRule}, op = WOP_SHORT ∨ op = WOP_VWIRE →
      E.newPathOffset op jctId layer type rule = .ok E' →
      ∃ entries, E'.ops = E.ops ++ entries ∧ Appendable E.idx entries ∧ E'.Valid type := by
    intro op jctId layer type rule hop hnew
    obtain ⟨-, rfl⟩ := newPathOffset_cases hnew
    have happ : Appendable E.idx ((op.code ||| getWireType type, (layer : Int)) ::
        (WOP_OPERAND.code, jctId) :: ruleEntries rule) := by
      refine .of_head (by rcases hop with rfl | rfl <;> simp) fun e he => ?_
      rcases List.mem_cons.mp he with rfl | he
      · rcases hop with rfl | rfl <;> simp
      rcases List.mem_cons.mp he with rfl | he
      · simp
      · rw [ofOpcode_ruleEntries e he]
        decide
    exact ⟨_, rfl, happ, h.pathStarted layer type rule happ⟩
  cases call with
  | addPoint x y property =>
      obtain ⟨E₁, prevExt, hadd, rfl⟩ := addPoint_cases hcall
      exact h.pointEnd hadd
  | addPointExt x y ext property =>
      obtain ⟨E₁, prevExt, hadd, rfl⟩ := addPointExt_cases hcall
      exact h.pointEnd hadd
  | addVia via =>
      obtain ⟨-, -, rfl⟩ := addVia_cases hcall
      exact h.append (.of_head (by simp) (by simp)) rfl rfl rfl rfl
  | addTechVia via =>
      obtain ⟨-, -, rfl⟩ := addTechVia_cases hcall
      exact h.append (.of_head (by simp) (by simp)) rfl rfl rfl rfl
  | addRect deltaX1 deltaY1 deltaX2 deltaY2 =>
      obtain rfl := addRect_cases (ok_of_void hcall)
      exact h.append (.of_head (by simp) (by simp)) rfl rfl rfl rfl
  | setColor maskColor =>
      obtain ⟨value, rfl⟩ := setColor_cases (ok_of_void hcall)
      exact h.append (.of_head (by simp) (by simp)) rfl rfl rfl rfl
  | clearColor =>
      cases hcall
      exact h.append (.of_head (by simp) (by simp)) rfl rfl rfl rfl
  | setViaColor bottomColor cutColor topColor =>
      obtain ⟨value, rfl⟩ := setViaColor_cases (ok_of_void hcall)
      exact h.append (.of_head (by simp) (by simp)) rfl rfl rfl rfl
  | clearViaColor =>
      cases hcall
      exact h.append (.of_head (by simp) (by simp)) rfl rfl rfl rfl
  | addITerm iterm =>
      obtain rfl := addTerm_cases (ok_of_void hcall)
      exact h.append (.of_head (by simp) (by simp)) rfl rfl rfl rfl
  | addBTerm bterm =>
      obtain rfl := addTerm_cases (ok_of_void hcall)
      exact h.append (.of_head (by simp) (by simp)) rfl rfl rfl rfl
  | newPath layer type =>
      cases hcall
      have happ : Appendable E.idx [(WOP_PATH.code ||| getWireType type, (layer : Int))] :=
        .of_head (by simp) (by simp)
      exact ⟨_, rfl, happ, h.pathStarted layer type none happ⟩
  | newPathRule layer type rule =>
      cases hcall
      rw [newPathRule_eq]
      have happ : Appendable E.idx ((WOP_PATH.code ||| getWireType type, (layer : Int)) ::
          ruleEntries (some rule)) := .of_head (by simp) (by simp [ruleEntries])
      exact ⟨_, rfl, happ, h.pathStarted layer type (some rule) happ⟩
  | newPathShort jctId layer type rule => exact hoffset (Or.inl rfl) (ok_of_void hcall)
  | newPathVirtualWire jctId layer type rule => exact hoffset (Or.inr rfl) (ok_of_void hcall)
  | newPathFrom jctId type rule =>
      obtain ⟨j, pnt, rfl, hj, -, rfl⟩ := newPathFrom_cases (ok_of_void hcall)
      exact h.junctionStarted pnt hj type rule none
  | newPathExt jctId ext type rule =>
      obtain ⟨j, pnt, rfl, hj, -, rfl⟩ := newPathExt_cases (ok_of_void hcall)
      exact h.junctionStarted pnt hj type rule (some ext)

end DbWireEncoder

/-! ### Opcodes -/

/-- The opcodes of the entries that a call may append. -/
def EncoderCall.opcodes : EncoderCall → List WireOp
  | .addPoint _ _ _ | .addPointExt _ _ _ _ =>
      [WOP_X, WOP_Y, WOP_COLINEAR, WOP_OPERAND, WOP_RULE, WOP_PROPERTY]
  | .addVia _ => [WOP_VIA]
  | .addTechVia _ => [WOP_TECH_VIA, WOP_COLOR]
  | .addRect _ _ _ _ => [WOP_RECT, WOP_OPERAND]
  | .setColor _ | .clearColor => [WOP_COLOR]
  | .setViaColor _ _ _ | .clearViaColor => [WOP_VIACOLOR]
  | .addITerm _ => [WOP_ITERM]
  | .addBTerm _ => [WOP_BTERM]
  | .newPath _ _ | .newPathRule _ _ _ => [WOP_PATH, WOP_RULE]
  | .newPathShort _ _ _ _ => [WOP_SHORT, WOP_OPERAND, WOP_RULE]
  | .newPathVirtualWire _ _ _ _ => [WOP_VWIRE, WOP_OPERAND, WOP_RULE]
  | .newPathFrom _ _ _ | .newPathExt _ _ _ _ => [WOP_JUNCTION, WOP_RULE, WOP_COLINEAR]

/-- Entries with one of the opcodes each. -/
def OfOps (ops : List WireOp) (entries : List WireEntry) : Prop :=
  ∀ entry ∈ entries, ∃ op ∈ ops, WireOp.ofOpcode entry.1 = some op

section OfOps

variable {ops : List WireOp} {entries more : List WireEntry}

theorem ofOps_nil : OfOps ops [] := fun _ h => (List.not_mem_nil h).elim

theorem ofOps_cons {entry : WireEntry} {op : WireOp} (h : WireOp.ofOpcode entry.1 = some op)
    (hop : op ∈ ops) (hrest : OfOps ops entries) : OfOps ops (entry :: entries) :=
  List.forall_mem_cons.mpr ⟨⟨op, hop, h⟩, hrest⟩

theorem OfOps.append (h : OfOps ops entries) (hmore : OfOps ops more) : OfOps ops (entries ++ more) :=
  fun entry hentry => (List.mem_append.mp hentry).elim (h entry) (hmore entry)

theorem ofOps_all {op : WireOp} (h : ∀ entry ∈ entries, WireOp.ofOpcode entry.1 = some op)
    (hop : op ∈ ops) : OfOps ops entries := fun entry hentry => ⟨op, hop, h entry hentry⟩

end OfOps

namespace DbWireEncoder

variable {E E' : DbWireEncoder} {last : DbWireType}

theorem Valid.pointEnd_ops (h : E.Valid last) {E₁ : DbWireEncoder} {x y : Int} {ext : Option Int}
    {id property : Nat} {prevExt : Bool} (hadd : PointAdded E x y ext E₁ id) :
    ∃ entries, (E₁.pointEnd property prevExt).ops = E.ops ++ entries ∧
      OfOps [WOP_X, WOP_Y, WOP_COLINEAR, WOP_OPERAND, WOP_RULE, WOP_PROPERTY] entries := by
  obtain ⟨-, -, -, hvalid₁⟩ := h.pointAdded hadd
  have hext : OfOps [WOP_X, WOP_Y, WOP_COLINEAR, WOP_OPERAND, WOP_RULE, WOP_PROPERTY]
      (extEntries ext) := ofOps_all ofOpcode_extEntries (by decide)
  have hpoint : ∃ entries, E₁.ops = E.ops ++ entries ∧
      OfOps [WOP_X, WOP_Y, WOP_COLINEAR, WOP_OPERAND, WOP_RULE, WOP_PROPERTY] entries := by
    cases hadd with
    | first hcnt =>
        exact ⟨_, rfl, ofOps_cons (E.ofOpcode_pointOp _ _) (by decide)
          (ofOps_cons (E.ofOpcode_pointOp _ _) (by decide) hext)⟩
    | colinear hcnt hx hy hrule =>
        exact ⟨_, rfl, ofOps_cons (E.ofOpcode_pointOp _ _) (by decide) ofOps_nil⟩
    | horizontal hcnt hx hy =>
        exact ⟨_, rfl, ofOps_cons (E.ofOpcode_pointOp _ _) (by decide) hext⟩
    | vertical hcnt hx hy =>
        exact ⟨_, rfl, ofOps_cons (E.ofOpcode_pointOp _ _) (by decide) hext⟩
  obtain ⟨entries, hops, hentries⟩ := hpoint
  refine ⟨entries ++ (E₁.insertedRule ++ E₁.propertyEntries property), ?_, hentries.append
    ((ofOps_all hvalid₁.ofOpcode_insertedRule (by decide)).append
      (ofOps_all (E₁.ofOpcode_propertyEntries property) (by decide)))⟩
  rw [DbWireEncoder.pointEnd, hops, List.append_assoc]

/-- Every call appends entries with its own opcodes. -/
theorem Valid.perform_ops {tech : DbTech} (h : E.Valid last) {call : EncoderCall} {id : Nat}
    (hcall : E.perform tech call = .ok (E', id)) :
    ∃ entries, E'.ops = E.ops ++ entries ∧ OfOps call.opcodes entries := by
  have hrule : ∀ {ops : List WireOp} (rule : Option DbTechLayerRule), WOP_RULE ∈ ops →
      OfOps ops (ruleEntries rule) := fun rule hmem => ofOps_all ofOpcode_ruleEntries hmem
  have hjunction : ∀ {j : Nat} {pnt : WirePoint} {type : Option DbWireType}
      {rule : Option DbTechLayerRule} {ext : Option Int}, ∃ entries,
      (E.junctionStarted pnt j (E.givenType type) rule ext).ops = E.ops ++ entries ∧
        OfOps [WOP_JUNCTION, WOP_RULE, WOP_COLINEAR] entries := by
    intro j pnt type rule ext
    rw [h.givenType]
    exact ⟨_, rfl, ofOps_cons (ofOpcode_or_getWireType _ _) (by decide)
      ((hrule rule (by decide)).append
        (ofOps_cons (ofOpcode_pointOp _ _ _) (by decide) ofOps_nil))⟩
  cases call with
  | addPoint x y property =>
      obtain ⟨E₁, prevExt, hadd, rfl⟩ := addPoint_cases hcall
      exact h.pointEnd_ops hadd
  | addPointExt x y ext property =>
      obtain ⟨E₁, prevExt, hadd, rfl⟩ := addPointExt_cases hcall
      exact h.pointEnd_ops hadd
  | addVia via =>
      obtain ⟨-, -, rfl⟩ := addVia_cases hcall
      exact ⟨_, rfl, ofOps_cons (ofOpcode_viaOp _ _ _) (by simp [EncoderCall.opcodes]) ofOps_nil⟩
  | addTechVia via =>
      obtain ⟨-, -, rfl⟩ := addTechVia_cases hcall
      exact ⟨_, rfl, ofOps_cons (ofOpcode_viaOp _ _ _) (by simp [EncoderCall.opcodes])
        (ofOps_cons (WireOp.ofOpcode_code WOP_COLOR) (by simp [EncoderCall.opcodes]) ofOps_nil)⟩
  | addRect deltaX1 deltaY1 deltaX2 deltaY2 =>
      obtain rfl := addRect_cases (ok_of_void hcall)
      have hoperand : ∀ value : Int, WireOp.ofOpcode (WOP_OPERAND.code, value).1 = some WOP_OPERAND :=
        fun _ => WireOp.ofOpcode_code _
      exact ⟨_, rfl, ofOps_cons (WireOp.ofOpcode_code _) (by simp [EncoderCall.opcodes])
        (ofOps_cons (hoperand _) (by simp [EncoderCall.opcodes]) (ofOps_cons (hoperand _) (by simp [EncoderCall.opcodes])
          (ofOps_cons (hoperand _) (by simp [EncoderCall.opcodes]) ofOps_nil)))⟩
  | setColor maskColor =>
      obtain ⟨value, rfl⟩ := setColor_cases (ok_of_void hcall)
      exact ⟨_, rfl, ofOps_cons (WireOp.ofOpcode_code _) (by simp [EncoderCall.opcodes]) ofOps_nil⟩
  | clearColor =>
      cases hcall
      exact ⟨_, rfl, ofOps_cons (WireOp.ofOpcode_code WOP_COLOR) (by simp [EncoderCall.opcodes]) ofOps_nil⟩
  | setViaColor bottomColor cutColor topColor =>
      obtain ⟨value, rfl⟩ := setViaColor_cases (ok_of_void hcall)
      exact ⟨_, rfl, ofOps_cons (WireOp.ofOpcode_code _) (by simp [EncoderCall.opcodes]) ofOps_nil⟩
  | clearViaColor =>
      cases hcall
      exact ⟨_, rfl, ofOps_cons (WireOp.ofOpcode_code WOP_VIACOLOR) (by simp [EncoderCall.opcodes]) ofOps_nil⟩
  | addITerm iterm =>
      obtain rfl := addTerm_cases (ok_of_void hcall)
      exact ⟨_, rfl, ofOps_cons (WireOp.ofOpcode_code _) (by simp [EncoderCall.opcodes]) ofOps_nil⟩
  | addBTerm bterm =>
      obtain rfl := addTerm_cases (ok_of_void hcall)
      exact ⟨_, rfl, ofOps_cons (WireOp.ofOpcode_code _) (by simp [EncoderCall.opcodes]) ofOps_nil⟩
  | newPath layer type =>
      cases hcall
      exact ⟨_, rfl, ofOps_cons (ofOpcode_or_getWireType _ type) (by simp [EncoderCall.opcodes]) ofOps_nil⟩
  | newPathRule layer type rule =>
      cases hcall
      rw [newPathRule_eq]
      exact ⟨_, rfl, ofOps_cons (ofOpcode_or_getWireType _ type) (by simp [EncoderCall.opcodes])
        (hrule (some rule) (by simp [EncoderCall.opcodes]))⟩
  | newPathShort jctId layer type rule =>
      obtain ⟨-, rfl⟩ := newPathOffset_cases (ok_of_void hcall)
      exact ⟨_, rfl, ofOps_cons (ofOpcode_or_getWireType _ type) (by simp [EncoderCall.opcodes])
        (ofOps_cons (WireOp.ofOpcode_code _) (by simp [EncoderCall.opcodes]) (hrule rule (by simp [EncoderCall.opcodes])))⟩
  | newPathVirtualWire jctId layer type rule =>
      obtain ⟨-, rfl⟩ := newPathOffset_cases (ok_of_void hcall)
      exact ⟨_, rfl, ofOps_cons (ofOpcode_or_getWireType _ type) (by simp [EncoderCall.opcodes])
        (ofOps_cons (WireOp.ofOpcode_code _) (by simp [EncoderCall.opcodes]) (hrule rule (by simp [EncoderCall.opcodes])))⟩
  | newPathFrom jctId type rule =>
      obtain ⟨j, pnt, rfl, -, -, rfl⟩ := newPathFrom_cases (ok_of_void hcall)
      exact hjunction
  | newPathExt jctId ext type rule =>
      obtain ⟨j, pnt, rfl, -, -, rfl⟩ := newPathExt_cases (ok_of_void hcall)
      exact hjunction

end DbWireEncoder

end OpenRoad.Db
