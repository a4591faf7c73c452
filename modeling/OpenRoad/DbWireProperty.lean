import OpenRoad.DbWireCodec
import OpenRoad.Run

/-!
The properties of points. `dbWire::getProperty` looks for the property of a point among the two
entries that follow it; where an operand and a rule come in between, it is the third.
-/

namespace OpenRoad.Db
open WireOp

/-! ### `dbWire` -/

/-- The index of the property among the two entries after a point; `none` where the wire ends. -/
def findProperty (wire : List WireEntry) (jid : Nat) : Option (Option Nat) := do
  let entry ← wire[jid + 1]?
  if WireOp.ofOpcode entry.1 = some WOP_PROPERTY then some (some (jid + 1))
  else do
    let entry ← wire[jid + 2]?
    if WireOp.ofOpcode entry.1 = some WOP_PROPERTY then some (some (jid + 2)) else some none

/-- `dbWire::getProperty`; `none` where an assertion fails, and inside it what is found. -/
def getProperty (wire : List WireEntry) (jid : Nat) : Option (Option Int) := do
  let entry ← wire[jid]?
  match WireOp.ofOpcode entry.1 with
  | some WOP_COLINEAR | some WOP_RECT => some (some 0)
  | some WOP_X | some WOP_Y =>
      (findProperty wire jid).map fun found => found.bind fun idx => (wire[idx]?).map Prod.snd
  | _ => none

/-- `dbWire::setProperty`; `none` where an assertion fails. -/
def setProperty (wire : List WireEntry) (jid : Nat) (prpty : Int) :
    Option (Bool × List WireEntry) := do
  let entry ← wire[jid]?
  match WireOp.ofOpcode entry.1 with
  | some WOP_COLINEAR => some (true, wire)
  | some WOP_X | some WOP_Y =>
      (findProperty wire jid).map fun
        | none => (false, wire)
        | some idx => (true, wire.modify idx fun entry => (entry.1, prpty))
  | _ => none

/-- A wire that differs in the value of one property only. -/
def SetsOneProperty (wire wire' : List WireEntry) (prpty : Int) : Prop :=
  ∃ idx op data, wire[idx]? = some (op, data) ∧ WireOp.ofOpcode op = some WOP_PROPERTY ∧
    wire' = wire.set idx (op, prpty)

/-- The property of the point is found, and so is another one that it is set to, which changes nothing
else. -/
def KeepsProperty (wire : List WireEntry) (jid : Nat) (property : Int) : Prop :=
  getProperty wire jid = some (some property) ∧
    ∀ prpty wire', setProperty wire jid prpty = some (true, wire') →
      getProperty wire' jid = some (some prpty) ∧ SetsOneProperty wire wire' prpty

variable {wire wire' : List WireEntry} {jid idx : Nat} {op : UInt8} {property prpty data : Int}

/-- The entry at the junction is a point that changes a coordinate. -/
def IsMove (wire : List WireEntry) (jid : Nat) : Prop :=
  ∃ entry, wire[jid]? = some entry ∧
    (WireOp.ofOpcode entry.1 = some WOP_X ∨ WireOp.ofOpcode entry.1 = some WOP_Y)

theorem getProperty_of_isMove (h : IsMove wire jid) : getProperty wire jid =
    (findProperty wire jid).map fun found => found.bind fun idx => (wire[idx]?).map Prod.snd := by
  obtain ⟨entry, hentry, hop⟩ := h
  unfold getProperty
  rw [hentry]
  rcases hop with hop | hop <;> simp only [Option.bind_eq_bind, Option.bind_some, hop]

theorem setProperty_of_isMove (h : IsMove wire jid) : setProperty wire jid prpty =
    (findProperty wire jid).map fun
      | none => (false, wire)
      | some idx => (true, wire.modify idx fun entry => (entry.1, prpty)) := by
  obtain ⟨entry, hentry, hop⟩ := h
  unfold setProperty
  rw [hentry]
  rcases hop with hop | hop <;> simp only [Option.bind_eq_bind, Option.bind_some, hop]

theorem findProperty_some (h : findProperty wire jid = some (some idx)) :
    (idx = jid + 1 ∨ idx = jid + 2) ∧
      ∃ op data, wire[idx]? = some (op, data) ∧ WireOp.ofOpcode op = some WOP_PROPERTY := by
  unfold findProperty at h
  obtain ⟨entry, hentry, h⟩ := Option.bind_eq_some_iff.mp h
  split_ifs at h with hop
  · obtain rfl := Option.some.inj (Option.some.inj h)
    exact ⟨Or.inl rfl, entry.1, entry.2, hentry, hop⟩
  · obtain ⟨entry', hentry', h⟩ := Option.bind_eq_some_iff.mp h
    split_ifs at h with hop'
    · obtain rfl := Option.some.inj (Option.some.inj h)
      exact ⟨Or.inr rfl, entry'.1, entry'.2, hentry', hop'⟩
    · exact absurd (Option.some.inj h) (Option.some_ne_none idx).symm

theorem findProperty_eq (wire : List WireEntry) (jid : Nat) : findProperty wire jid =
    ((wire.map Prod.fst)[jid + 1]?).bind fun op =>
      if WireOp.ofOpcode op = some WOP_PROPERTY then some (some (jid + 1))
      else ((wire.map Prod.fst)[jid + 2]?).bind fun op =>
        if WireOp.ofOpcode op = some WOP_PROPERTY then some (some (jid + 2)) else some none := by
  unfold findProperty
  rw [List.getElem?_map, List.getElem?_map, Option.bind_map]
  simp only [Option.bind_map]
  rfl

/-- Whether a property is found depends on the opcodes only. -/
theorem findProperty_congr (h : wire'.map Prod.fst = wire.map Prod.fst) :
    findProperty wire' jid = findProperty wire jid := by
  rw [findProperty_eq, findProperty_eq, h]

/-- Once a property is set, it is found. -/
theorem getProperty_setProperty (h : IsMove wire jid)
    (hset : setProperty wire jid prpty = some (true, wire')) :
    getProperty wire' jid = some (some prpty) ∧ SetsOneProperty wire wire' prpty := by
  rw [setProperty_of_isMove h] at hset
  obtain ⟨found, hfound, hset⟩ := Option.map_eq_some_iff.mp hset
  cases found with
  | none => exact absurd (congrArg Prod.fst hset) Bool.false_ne_true
  | some idx =>
      obtain ⟨hidx, op, data, hentry, hop⟩ := findProperty_some hfound
      obtain rfl : wire.modify idx (fun entry => (entry.1, prpty)) = wire' := congrArg Prod.snd hset
      have hmodify : wire.modify idx (fun entry => (entry.1, prpty)) = wire.set idx (op, prpty) := by
        rw [List.modify_eq_set, hentry]
        rfl
      rw [hmodify]
      have hlt : idx < wire.length := (List.getElem?_eq_some_iff.mp hentry).1
      have hops : (wire.set idx (op, prpty)).map Prod.fst = wire.map Prod.fst := by
        refine List.ext_getElem? fun i => ?_
        rw [List.getElem?_map, List.getElem?_map]
        rcases eq_or_ne i idx with rfl | hne
        · rw [List.getElem?_set_self hlt, hentry]
          rfl
        · rw [List.getElem?_set_ne hne.symm]
      refine ⟨?_, idx, op, data, hentry, hop, rfl⟩
      obtain ⟨entry, hjid, hmove⟩ := h
      have hne : idx ≠ jid := by omega
      have h' : IsMove (wire.set idx (op, prpty)) jid :=
        ⟨entry, by rw [List.getElem?_set_ne hne, hjid], hmove⟩
      rw [getProperty_of_isMove h', findProperty_congr hops, hfound]
      simp only [Option.map_some, Option.bind_some, List.getElem?_set_self hlt]

theorem keepsProperty_iff (h : IsMove wire jid) :
    KeepsProperty wire jid property ↔ getProperty wire jid = some (some property) :=
  ⟨And.left, fun hget => ⟨hget, fun _ _ hset => getProperty_setProperty h hset⟩⟩

/-! ### Encoded wires -/

namespace DbWireEncoder
open DbWireDecoder (twoLayers)

/-- A call that raises no error. -/
def step (tech : DbTech) (E : DbWireEncoder) (call : EncoderCall) : Option DbWireEncoder :=
  (E.perform tech call).toOption.map Prod.fst

/-- `addPoint(x, y, property)` and `addPoint(x, y, ext, property)` -/
def pointCall (x y : Int) (ext : Option Int) (property : Nat) : EncoderCall :=
  match ext with
  | none => .addPoint x y property
  | some ext => .addPointExt x y ext property

variable {tech : DbTech} {E E' E'' : DbWireEncoder}

theorem step_eq_some {call : EncoderCall} (h : step tech E call = some E') :
    ∃ id, E.perform tech call = .ok (E', id) := by
  unfold step at h
  cases hcall : E.perform tech call with
  | error e => rw [hcall] at h; cases h
  | ok result =>
      rw [hcall] at h
      obtain rfl := Option.some.inj h
      exact ⟨result.2, rfl⟩

theorem run_valid {last : DbWireType} (h : E.Valid last) {calls : List EncoderCall}
    (hrun : Run.run (step tech) E calls = some E') :
    ∃ last' entries, E'.Valid last' ∧ E'.ops = E.ops ++ entries := by
  have hkeep : ∀ F call F', (∃ last' entries, F.Valid last' ∧ F.ops = E.ops ++ entries) →
      step tech F call = some F' → ∃ last' entries, F'.Valid last' ∧ F'.ops = E.ops ++ entries := by
    rintro F call F' ⟨last', entries, hvalid, hops⟩ hstep
    obtain ⟨id, hcall⟩ := step_eq_some hstep
    obtain ⟨more, hmore, -, hvalid'⟩ := hvalid.perform hcall
    exact ⟨_, entries ++ more, hvalid', by rw [hmore, hops, List.append_assoc]⟩
  exact Run.run_invariant_of_step hkeep ⟨last, [], h, (List.append_nil _).symm⟩ hrun

theorem pointCall_cases {x y : Int} {ext : Option Int} {property id : Nat}
    (hcall : E.perform tech (pointCall x y ext property) = .ok (E', id)) :
    ∃ E₁ prevExt, PointAdded E x y ext E₁ id ∧ E' = E₁.pointEnd property prevExt := by
  cases ext with
  | none => exact addPoint_cases hcall
  | some ext => exact addPointExt_cases hcall

/-- A point that moves adds an entry at its junction id, and after it the extension, the periodic rule
and the property. -/
theorem pointCall_ops {x y : Int} {ext : Option Int} {property id : Nat}
    (hcall : E.perform tech (pointCall x y ext property) = .ok (E', id)) (hfirst : E.pointCnt ≠ 0)
    (hmoves : E.x ≠ x ∨ E.y ≠ y) :
    id = E.ops.length ∧ ∃ entry, (WireOp.ofOpcode entry.1 = some WOP_X ∨
      WireOp.ofOpcode entry.1 = some WOP_Y) ∧
        E'.ops = E.ops ++ (entry :: (extEntries ext ++
          ((if E.nonDefaultRule ≠ 0 ∧ (E.pointCnt + 1) &&& (WOP_NON_DEFAULT_WIDTH_POINT_CNT - 1) = 0
            then [(E.ruleOpcode, (E.nonDefaultRule : Int))] else []) ++
              [(WOP_PROPERTY.code, (property : Int))]))) := by
  obtain ⟨E₁, prevExt, hadd, rfl⟩ := pointCall_cases hcall
  cases hadd with
  | first hzero => exact absurd hzero hfirst
  | colinear _ hx hy _ => exact absurd hmoves (not_or.mpr ⟨not_not.mpr hx, not_not.mpr hy⟩)
  | horizontal _ hx hy =>
      refine ⟨rfl, (E.pointOp WOP_X ext, x), Or.inl (ofOpcode_pointOp E WOP_X ext), ?_⟩
      simp [pointEnd, insertedRule, propertyEntries, hfirst]
  | vertical _ hx hy =>
      refine ⟨rfl, (E.pointOp WOP_Y ext, y), Or.inr (ofOpcode_pointOp E WOP_Y ext), ?_⟩
      simp [pointEnd, insertedRule, propertyEntries, hfirst]

/-- What is looked at after a point. -/
theorem getElem?_after (pre rest : List WireEntry) (entry : WireEntry) (k : Nat) :
    (pre ++ entry :: rest)[pre.length + (k + 1)]? = rest[k]? := by
  rw [List.getElem?_append_right (Nat.le_add_right _ _), Nat.add_sub_cancel_left,
    List.getElem?_cons_succ]

theorem isMove_append (pre rest : List WireEntry) {entry : WireEntry}
    (hop : WireOp.ofOpcode entry.1 = some WOP_X ∨ WireOp.ofOpcode entry.1 = some WOP_Y) :
    IsMove (pre ++ entry :: rest) pre.length :=
  ⟨entry, by rw [List.getElem?_append_right le_rfl, Nat.sub_self, List.getElem?_cons_zero], hop⟩

/-- The property is found where it is the first or the second entry after the point. -/
theorem getProperty_append {pre rest : List WireEntry} {entry : WireEntry}
    (hop : WireOp.ofOpcode entry.1 = some WOP_X ∨ WireOp.ofOpcode entry.1 = some WOP_Y)
    {first second : WireEntry} (hfirst : rest[0]? = some first)
    (hsecond : WireOp.ofOpcode first.1 ≠ some WOP_PROPERTY → rest[1]? = some second) :
    getProperty (pre ++ entry :: rest) pre.length =
      if WireOp.ofOpcode first.1 = some WOP_PROPERTY then some (some first.2)
      else if WireOp.ofOpcode second.1 = some WOP_PROPERTY then some (some second.2)
      else some none := by
  have h₁ := (getElem?_after pre rest entry 0).trans hfirst
  rw [getProperty_of_isMove (isMove_append pre rest hop)]
  unfold findProperty
  rw [h₁]
  simp only [Option.bind_eq_bind, Option.bind_some]
  by_cases hfound : WireOp.ofOpcode first.1 = some WOP_PROPERTY
  · rw [if_pos hfound, if_pos hfound, Option.map_some, Option.bind_some, h₁]
    rfl
  · have h₂ := (getElem?_after pre rest entry 1).trans (hsecond hfound)
    rw [if_neg hfound, if_neg hfound, h₂, Option.bind_some]
    split_ifs
    · rw [Option.map_some, Option.bind_some, h₂]
      rfl
    · rfl

/-- For every wire that is encoded and every point of it after the first of its path that changes x or
y: the property it is added with is kept, exactly where the point has no extension or the rule of the
path is not inserted after it. -/
theorem keepsProperty_pointCall_iff {type : DbWireType} {before after : List EncoderCall} {x y : Int}
    {ext : Option Int} {property id : Nat}
    (hbefore : Run.run (step tech) { wireType := getWireType type } before = some E)
    (hcall : E.perform tech (pointCall x y ext property) = .ok (E', id))
    (hafter : Run.run (step tech) E' after = some E'')
    (hfirst : E.pointCnt ≠ 0) (hmoves : E.x ≠ x ∨ E.y ≠ y) :
    KeepsProperty E''.ops id property ↔ ¬(ext.isSome ∧ E.nonDefaultRule ≠ 0 ∧
      (E.pointCnt + 1) &&& (WOP_NON_DEFAULT_WIDTH_POINT_CNT - 1) = 0) := by
  have hnew : ({ wireType := getWireType type } : DbWireEncoder).Valid type :=
    @Valid.begin { wireType := getWireType type } type rfl
  obtain ⟨last, -, hvalid, -⟩ := run_valid hnew hbefore
  obtain ⟨-, -, -, hvalid'⟩ := hvalid.perform hcall
  obtain ⟨-, more, -, hmore⟩ := run_valid hvalid' hafter
  obtain ⟨rfl, entry, hop, hops⟩ := pointCall_ops hcall hfirst hmoves
  rw [hops, List.append_assoc, List.cons_append] at hmore
  rw [hmore, keepsProperty_iff (isMove_append _ _ hop)]
  cases ext with
  | none =>
      refine iff_of_true ?_ fun h => absurd h.1 Bool.false_ne_true
      by_cases hrule : E.nonDefaultRule ≠ 0 ∧
          (E.pointCnt + 1) &&& (WOP_NON_DEFAULT_WIDTH_POINT_CNT - 1) = 0
      · have hcode := hvalid.rule hrule.1
        rw [if_pos hrule, @getProperty_append _ _ _ hop (E.ruleOpcode, E.nonDefaultRule)
          (WOP_PROPERTY.code, property) rfl fun _ => rfl]
        simp [hcode]
      · rw [if_neg hrule, @getProperty_append _ _ _ hop (WOP_PROPERTY.code, property)
          (WOP_PROPERTY.code, property) rfl fun h => absurd (by simp) h]
        simp
  | some ext =>
      by_cases hrule : E.nonDefaultRule ≠ 0 ∧
          (E.pointCnt + 1) &&& (WOP_NON_DEFAULT_WIDTH_POINT_CNT - 1) = 0
      · have hcode := hvalid.rule hrule.1
        rw [if_pos hrule, @getProperty_append _ _ _ hop (WOP_OPERAND.code, ext)
          (E.ruleOpcode, E.nonDefaultRule) rfl fun _ => rfl]
        simp [hcode, hrule]
      · rw [if_neg hrule, @getProperty_append _ _ _ hop (WOP_OPERAND.code, ext)
          (WOP_PROPERTY.code, property) rfl fun _ => rfl]
        refine iff_of_true (by simp) fun h => hrule h.2

/-- A rule of the technology. -/
def techRule : DbTechLayerRule := ⟨1, false, Nat.one_pos⟩

/-- A path with a rule and fifteen points, along a row. -/
def fifteenPoints : List EncoderCall :=
  .newPathRule 1 .ROUTED techRule :: (List.range 15).map fun i => .addPoint (10 * i) 0 0

/-- The encoder after the sixteenth point, and what is found at it. -/
def sixteenthPoint (ext : Option Int) : Option (DbWireEncoder × DbWireEncoder × Nat) :=
  (Run.run (step twoLayers) { wireType := getWireType .NONE } fifteenPoints).bind fun E =>
    ((E.perform twoLayers (pointCall 150 0 ext 7)).toOption).map fun r => (E, r)

theorem sixteenthPoint_cases {ext : Option Int} {r : DbWireEncoder × DbWireEncoder × Nat}
    (h : sixteenthPoint ext = some r) :
    Run.run (step twoLayers) { wireType := getWireType .NONE } fifteenPoints = some r.1 ∧
      r.1.perform twoLayers (pointCall 150 0 ext 7) = .ok (r.2.1, r.2.2) := by
  obtain ⟨E, hrun, hmap⟩ := Option.bind_eq_some_iff.mp h
  obtain ⟨result, hcall, rfl⟩ := Option.map_eq_some_iff.mp hmap
  refine ⟨hrun, ?_⟩
  cases hperform : E.perform twoLayers (pointCall 150 0 ext 7) with
  | error e => rw [hperform] at hcall; cases hcall
  | ok result' => rw [hperform] at hcall; cases hcall; rfl

/-- With an extension, the property of the sixteenth point is not found. -/
theorem not_keepsProperty_sixteenth : ∃ E E' id,
    Run.run (step twoLayers) { wireType := getWireType .NONE } fifteenPoints = some E ∧
      E.perform twoLayers (pointCall 150 0 (some 5) 7) = .ok (E', id) ∧ E.pointCnt = 15 ∧
        E.x ≠ 150 ∧ ¬KeepsProperty E'.ops id 7 := by
  have hstate : (sixteenthPoint (some 5)).map (fun r =>
      (r.1.pointCnt, r.1.x, getProperty r.2.1.ops r.2.2)) = some (15, 140, some none) := by
    decide +kernel
  obtain ⟨⟨E, E', id⟩, hr, heq⟩ := Option.map_eq_some_iff.mp hstate
  obtain ⟨hrun, hcall⟩ := sixteenthPoint_cases hr
  obtain ⟨hcnt, heq⟩ := Prod.mk.inj heq
  obtain ⟨hx, hget⟩ := Prod.mk.inj heq
  refine ⟨E, E', id, hrun, hcall, hcnt, ?_, fun h => ?_⟩
  · rw [hx]
    decide
  · exact absurd (hget.symm.trans h.1) (by decide)

/-- Without one it is kept. -/
theorem keepsProperty_pointCall_sixteenth : ∃ E E' id,
    Run.run (step twoLayers) { wireType := getWireType .NONE } fifteenPoints = some E ∧
      E.perform twoLayers (pointCall 150 0 none 7) = .ok (E', id) ∧ KeepsProperty E'.ops id 7 := by
  have hstate : (sixteenthPoint none).map (fun r => (r.1.pointCnt, r.1.x)) = some (15, 140) := by
    decide +kernel
  obtain ⟨⟨E, E', id⟩, hr, heq⟩ := Option.map_eq_some_iff.mp hstate
  obtain ⟨hrun, hcall⟩ := sixteenthPoint_cases hr
  obtain ⟨hcnt, hx⟩ := Prod.mk.inj heq
  have hmoves : E.x ≠ 150 ∨ E.y ≠ 0 := Or.inl (by rw [hx]; decide)
  have hkeeps := @keepsProperty_pointCall_iff _ _ _ _ .NONE fifteenPoints [] _ _ _ _ _ hrun hcall rfl
    (by rw [hcnt]; decide) hmoves
  exact ⟨E, E', id, hrun, hcall, hkeeps.mpr fun h => absurd h.1 Bool.false_ne_true⟩

end DbWireEncoder

end OpenRoad.Db
