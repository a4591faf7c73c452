import OpenRoad.DbWireSegmentSame
import OpenRoad.DbWireJunction
import OpenRoad.DbWireProperty

/-!
On encoded wires `getSegment` finds the segment of every point that is not the first one of its path:
the way back from it has the points, a layer and, on a path with a rule, a rule.
-/

namespace OpenRoad.Db
open WireOp StopFold

/-- An x is still needed. -/
def needsX (state : Nat) : Bool := state ∉ [4, 7, 10]

/-- A y is still needed. -/
def needsY (state : Nat) : Bool := state ∉ [5, 8, 11]

theorem needs_next : ∀ state ∈ List.range 13, state ≠ 0 →
    (CoordInput.XInput.next state = 13 ∨ CoordInput.XInput.next state < 13 ∧
      needsX (CoordInput.XInput.next state) = false ∧
      (needsY (CoordInput.XInput.next state) = true → needsY state = true)) ∧
    (CoordInput.YInput.next state = 13 ∨ CoordInput.YInput.next state < 13 ∧
      needsY (CoordInput.YInput.next state) = false ∧
      (needsX (CoordInput.YInput.next state) = true → needsX state = true)) ∧
    (CoordInput.CInput.next state < 13 ∧
      (needsX (CoordInput.CInput.next state) = true → needsX state = true) ∧
      (needsY (CoordInput.CInput.next state) = true → needsY state = true)) := by
  decide

theorem needs_some : ∀ state ∈ List.range 13, needsX state = true ∨ needsY state = true := by
  decide

theorem coordInput_cases (entry : WireEntry) :
    (coordInput entry = some .XInput ∧ xOf entry ≠ none ∧ yOf entry = none) ∨
      (coordInput entry = some .YInput ∧ xOf entry = none ∧ yOf entry ≠ none) ∨
        ((coordInput entry = some .CInput ∨ coordInput entry = none) ∧ xOf entry = none ∧
          yOf entry = none) := by
  unfold coordInput xOf yOf
  cases WireOp.ofOpcode entry.1 with
  | none => simp
  | some op => cases op <;> simp

theorem runUntil_stateAfter_cons {state : Nat} (h : state < 13) (e : Nat × WireEntry)
    (back : List (Nat × WireEntry)) : runUntil (· == 13) stateAfter state (e :: back) =
      runUntil (· == 13) stateAfter (stateAfter state e) back :=
  @runUntil_cons _ _ (· == 13) stateAfter state (beq_false_of_ne (Nat.ne_of_lt h)) e back

/-- The state machine ends at an entry with a coordinate, if the coordinates are found that it needs. -/
theorem runUntil_stateAfter {state : Nat} (hstate : state < 13) (hpos : state ≠ 0)
    {back : List (Nat × WireEntry)} (hx : needsX state = true → ∃ e ∈ back, xOf e.2 ≠ none)
    (hy : needsY state = true → ∃ e ∈ back, yOf e.2 ≠ none) :
    ∃ taken a rest, back = taken ++ a :: rest ∧ (xOf a.2 ≠ none ∨ yOf a.2 ≠ none) ∧
      runUntil (· == 13) stateAfter state back = some (13, rest) := by
  induction back generalizing state with
  | nil =>
      rcases needs_some state (List.mem_range.mpr hstate) with h | h
      · obtain ⟨e, he, -⟩ := hx h
        cases he
      · obtain ⟨e, he, -⟩ := hy h
        cases he
  | cons e back ih =>
      obtain ⟨hX, hY, hC⟩ := needs_next state (List.mem_range.mpr hstate) hpos
      have hne := @SegmentWalk.stateAfter_ne_zero state hpos e
      have hrest : ∀ {f : WireEntry → Option Int}, f e.2 = none → (∃ a ∈ e :: back, f a.2 ≠ none) →
          ∃ a ∈ back, f a.2 ≠ none := by
        rintro f hf ⟨a, ha, hsome⟩
        rcases List.mem_cons.mp ha with rfl | ha
        · exact absurd hf hsome
        · exact ⟨a, ha, hsome⟩
      have hgo : stateAfter state e < 13 →
          (needsX (stateAfter state e) = true → ∃ a ∈ back, xOf a.2 ≠ none) →
          (needsY (stateAfter state e) = true → ∃ a ∈ back, yOf a.2 ≠ none) →
          ∃ taken a rest, e :: back = taken ++ a :: rest ∧ (xOf a.2 ≠ none ∨ yOf a.2 ≠ none) ∧
            runUntil (· == 13) stateAfter state (e :: back) = some (13, rest) := by
        intro hlt hx' hy'
        obtain ⟨taken, a, rest, rfl, ha, hrun⟩ := ih hlt hne hx' hy'
        refine ⟨e :: taken, a, rest, rfl, ha, ?_⟩
        rw [runUntil_stateAfter_cons hstate]
        exact hrun
      have hend : stateAfter state e = 13 → (xOf e.2 ≠ none ∨ yOf e.2 ≠ none) →
          ∃ taken a rest, e :: back = taken ++ a :: rest ∧ (xOf a.2 ≠ none ∨ yOf a.2 ≠ none) ∧
            runUntil (· == 13) stateAfter state (e :: back) = some (13, rest) := by
        intro hafter hcoord
        refine ⟨[], e, back, rfl, hcoord, ?_⟩
        rw [runUntil_stateAfter_cons hstate, hafter, runUntil_of_stop rfl]
      rcases coordInput_cases e.2 with ⟨hinput, hsome, hnone⟩ | ⟨hinput, hnone, hsome⟩ |
        ⟨hinput, hnoneX, hnoneY⟩
      · have hafter : stateAfter state e = CoordInput.XInput.next state := by
          unfold stateAfter
          rw [hinput]
        rw [← hafter] at hX
        rcases hX with hX | ⟨hlt, hno, hneeds⟩
        · exact hend hX (Or.inl hsome)
        · refine hgo hlt (fun h => ?_) fun h => hrest hnone (hy (hneeds h))
          rw [hno] at h
          cases h
      · have hafter : stateAfter state e = CoordInput.YInput.next state := by
          unfold stateAfter
          rw [hinput]
        rw [← hafter] at hY
        rcases hY with hY | ⟨hlt, hno, hneeds⟩
        · exact hend hY (Or.inr hsome)
        · refine hgo hlt (fun h => hrest hnone (hx (hneeds h))) fun h => ?_
          rw [hno] at h
          cases h
      · rcases hinput with hinput | hinput
        · have hafter : stateAfter state e = CoordInput.CInput.next state := by
            unfold stateAfter
            rw [hinput]
          rw [← hafter] at hC
          exact hgo hC.1 (fun h => hrest hnoneX (hx (hC.2.1 h))) fun h => hrest hnoneY (hy (hC.2.2 h))
        · have hafter : stateAfter state e = state := by
            unfold stateAfter
            rw [hinput]
          refine hgo (hafter.symm ▸ hstate) (fun h => hrest hnoneX (hx ?_)) fun h =>
            hrest hnoneY (hy ?_) <;> rwa [hafter] at h

/-! ### What the way back from the last entry has -/

section Reach

variable {α : Type} {f : WireEntry → Option α} {ops entries : List WireEntry}

/-- The way back from an entry has a value. -/
def Reaches (f : WireEntry → Option α) (ops : List WireEntry) (idx : Nat) : Prop := ∃ v, Found f ops idx v

theorem Reaches.append {idx : Nat} (h : Reaches f ops idx) (entries : List WireEntry) :
    Reaches f (ops ++ entries) idx := by
  obtain ⟨v, hv⟩ := h
  exact ⟨v, hv.append entries⟩

theorem reaches_here {idx : Nat} {entry : WireEntry} (hentry : ops[idx]? = some entry)
    (hsome : f entry ≠ none) : Reaches f ops idx := by
  obtain ⟨v, hv⟩ := Option.ne_none_iff_exists'.mp hsome
  exact ⟨v, .here hentry hv⟩

theorem reaches_back {idx i : Nat} {entry : WireEntry} (hentry : ops[idx]? = some entry)
    (hprev : prevIdx entry idx = some i) (h : Reaches f ops i) : Reaches f ops idx := by
  cases hv : f entry with
  | some v => exact ⟨v, .here hentry hv⟩
  | none =>
      obtain ⟨v, hfound⟩ := h
      exact ⟨v, .back hentry hv hprev hfound⟩

/-- Entries without a junction lead back to the one before them. -/
theorem Reaches.append_others {n : Nat} (h : Reaches f ops n) (hn : n + 1 = ops.length)
    (hno : ∀ entry ∈ entries, WireOp.ofOpcode entry.1 ≠ some WOP_JUNCTION) {i : Nat} (hle : n ≤ i)
    (hlt : i < (ops ++ entries).length) : Reaches f (ops ++ entries) i := by
  induction i, hle using Nat.le_induction with
  | base => exact h.append entries
  | succ i hle ih =>
      have hentry := List.getElem?_eq_getElem hlt
      have hmem : (ops ++ entries)[i + 1] ∈ entries := by
        rw [List.getElem_append_right (by omega)]
        exact List.getElem_mem _
      exact reaches_back hentry (if_neg (hno _ hmem)) (ih (by omega))

/-- The last entry. -/
theorem Reaches.last (h : Reaches f ops (ops.length - 1))
    (hno : ∀ entry ∈ entries, WireOp.ofOpcode entry.1 ≠ some WOP_JUNCTION) {i : Nat}
    (hle : ops.length - 1 ≤ i) (hlt : i < (ops ++ entries).length) : Reaches f (ops ++ entries) i := by
  obtain ⟨v, hv⟩ := h
  obtain ⟨entry, hentry⟩ := hv.exists_entry
  have hpos := (List.getElem?_eq_some_iff.mp hentry).1
  exact Reaches.append_others ⟨v, hv⟩ (by omega) hno hle hlt

end Reach

/-! ### Encoded wires -/

namespace EncoderCall

def beginsPath : EncoderCall → Bool
  | .newPath _ _ | .newPathRule _ _ _ | .newPathShort _ _ _ _ | .newPathVirtualWire _ _ _ _
  | .newPathFrom _ _ _ | .newPathExt _ _ _ _ => true
  | _ => false

/-- No point is added before a path is started; `started` when one was. -/
def onPaths (started : Bool) : List EncoderCall → Bool
  | [] => true
  | call :: calls => (!call.isPoint || started) && onPaths (started || call.beginsPath) calls

variable {call : EncoderCall}

theorem junction_not_mem_opcodes (h : call.beginsPath = false) : WOP_JUNCTION ∉ call.opcodes := by
  cases call <;> simp_all [beginsPath, opcodes]

theorem coordinate_not_mem_opcodes (h : call.isPoint = false) :
    WOP_X ∉ call.opcodes ∧ WOP_Y ∉ call.opcodes := by
  cases call <;> simp_all [isPoint, opcodes]

theorem isPoint_of_beginsPath (h : call.beginsPath = true) : call.isPoint = false := by
  cases call <;> first | rfl | cases h

end EncoderCall

namespace DbWireEncoder

variable {tech : DbTech} {E E' : DbWireEncoder} {last : DbWireType} {started : Bool}
  {call : EncoderCall} {id : Nat}

/-- The way back from a coordinate has a layer; the one from the last entry has one on a path, and a
rule on a path with a rule. -/
structure OnPath (tech : DbTech) (E : DbWireEncoder) (started : Bool) : Prop where
  points : ∀ i entry, E.ops[i]? = some entry → (xOf entry ≠ none ∨ yOf entry ≠ none) →
    Reaches (segmentLayerOf tech) E.ops i
  layer : started = true → Reaches (segmentLayerOf tech) E.ops (E.ops.length - 1)
  rule : E.nonDefaultRule ≠ 0 → Reaches (ruleOf tech) E.ops (E.ops.length - 1)

theorem perform_rule (hstart : call.beginsPath = false) (hcall : E.perform tech call = .ok (E', id)) :
    E'.nonDefaultRule = E.nonDefaultRule := by
  cases call with
  | addPoint x y property =>
      obtain ⟨E₁, prevExt, hadd, rfl⟩ := addPoint_cases hcall
      cases hadd <;> rfl
  | addPointExt x y ext property =>
      obtain ⟨E₁, prevExt, hadd, rfl⟩ := addPointExt_cases hcall
      cases hadd <;> rfl
  | addVia via =>
      obtain ⟨-, -, rfl⟩ := addVia_cases hcall
      rfl
  | addTechVia via =>
      obtain ⟨-, -, rfl⟩ := addTechVia_cases hcall
      rfl
  | addRect deltaX1 deltaY1 deltaX2 deltaY2 => rw [addRect_cases (ok_of_void hcall)]
  | setColor maskColor =>
      obtain ⟨value, rfl⟩ := setColor_cases (ok_of_void hcall)
      rfl
  | clearColor => cases hcall; rfl
  | setViaColor bottomColor cutColor topColor =>
      obtain ⟨value, rfl⟩ := setViaColor_cases (ok_of_void hcall)
      rfl
  | clearViaColor => cases hcall; rfl
  | addITerm iterm => rw [addTerm_cases (ok_of_void hcall)]
  | addBTerm bterm => rw [addTerm_cases (ok_of_void hcall)]
  | newPath | newPathRule | newPathShort | newPathVirtualWire | newPathFrom | newPathExt => cases hstart

/-- A path starts with its layer or at a junction that sees one; a rule comes right after it. -/
def PathStart (tech : DbTech) (E E' : DbWireEncoder) : Prop :=
  ∃ first rest, E'.ops = E.ops ++ first :: rest ∧
    (∀ entry ∈ rest, WireOp.ofOpcode entry.1 ≠ some WOP_JUNCTION) ∧
    (segmentLayerOf tech first ≠ none ∨
      ∃ j : Nat, prevIdx first E.ops.length = some j ∧ Reaches (layerOf tech) E.ops j) ∧
    (E'.nonDefaultRule ≠ 0 → ∃ entry ∈ rest, ruleOf tech entry ≠ none)

theorem perform_start (hvalid : E.Valid last) (hstart : call.beginsPath = true)
    (hcall : E.perform tech call = .ok (E', id)) : PathStart tech E E' := by
  have hrule : ∀ (rule : Option DbTechLayerRule), (rule.map (·.oid)).getD 0 ≠ 0 →
      ∃ entry ∈ ruleEntries rule, ruleOf tech entry ≠ none := by
    intro rule hne
    cases rule with
    | none => exact absurd rfl hne
    | some rule => exact ⟨_, List.mem_singleton_self _, by simp [ruleOf]⟩
  have hpath : ∀ (op : WireOp) (layer : Nat) (type : DbWireType) (rule : Option DbTechLayerRule)
      (more : List WireEntry), op = WOP_PATH ∨ op = WOP_SHORT ∨ op = WOP_VWIRE →
      (∀ entry ∈ more, WireOp.ofOpcode entry.1 = some WOP_OPERAND) →
      E' = E.pathStarted layer (getWireType type) rule
        ((op.code ||| getWireType type, (layer : Int)) :: (more ++ ruleEntries rule)) →
      PathStart tech E E' := by
    rintro op layer type rule more hop hmore rfl
    refine ⟨_, _, rfl, fun entry hentry => ?_, Or.inl ?_, fun hne => ?_⟩
    · rcases List.mem_append.mp hentry with hentry | hentry
      · rw [hmore entry hentry]
        decide
      · rw [ofOpcode_ruleEntries entry hentry]
        decide
    · rcases hop with rfl | rfl | rfl <;> simp [segmentLayerOf, layerOf]
    · have hne' : (E.startPath layer (getWireType type) rule).nonDefaultRule ≠ 0 := hne
      rw [startPath_nonDefaultRule] at hne'
      obtain ⟨entry, hentry, hsome⟩ := hrule rule hne'
      exact ⟨entry, List.mem_append_right _ hentry, hsome⟩
  have hjunction : ∀ (j : Nat) (pnt : WirePoint) (type : Option DbWireType)
      (rule : Option DbTechLayerRule) (ext : Option Int), getPrevPoint tech E.ops j true = some pnt →
      E' = E.junctionStarted pnt j (E.givenType type) rule ext →
      PathStart tech E E' := by
    rintro j pnt type rule ext hpnt rfl
    obtain ⟨-, -, hlayer⟩ := (getPrevPoint_iff hvalid.backward).mp hpnt
    refine ⟨_, _, rfl, fun entry hentry => ?_, Or.inr ⟨j, ?_, _, hlayer⟩, fun hne => ?_⟩
    · rcases List.mem_append.mp hentry with hentry | hentry
      · rw [ofOpcode_ruleEntries entry hentry]
        decide
      · rw [List.mem_singleton.mp hentry]
        simp
    · rw [hvalid.givenType]
      exact if_pos (ofOpcode_or_getWireType _ _)
    · have hne' : (E.startPath pnt.layer (E.givenType type) rule).nonDefaultRule ≠ 0 := hne
      rw [startPath_nonDefaultRule] at hne'
      obtain ⟨entry, hentry, hsome⟩ := hrule rule hne'
      exact ⟨entry, List.mem_append_left _ hentry, hsome⟩
  cases call with
  | newPath layer type =>
      cases hcall
      exact hpath WOP_PATH layer type none [] (Or.inl rfl) (by simp) rfl
  | newPathRule layer type rule =>
      cases hcall
      exact hpath WOP_PATH layer type (some rule) [] (Or.inl rfl) (by simp) (newPathRule_eq ..)
  | newPathShort jctId layer type rule =>
      obtain ⟨-, rfl⟩ := newPathOffset_cases (ok_of_void hcall)
      exact hpath WOP_SHORT layer type rule [(WOP_OPERAND.code, jctId)] (Or.inr (Or.inl rfl)) (by simp) rfl
  | newPathVirtualWire jctId layer type rule =>
      obtain ⟨-, rfl⟩ := newPathOffset_cases (ok_of_void hcall)
      exact hpath WOP_VWIRE layer type rule [(WOP_OPERAND.code, jctId)] (Or.inr (Or.inr rfl)) (by simp) rfl
  | newPathFrom jctId type rule =>
      obtain ⟨j, pnt, rfl, -, hpnt, rfl⟩ := newPathFrom_cases (ok_of_void hcall)
      exact hjunction j pnt type rule none hpnt rfl
  | newPathExt jctId ext type rule =>
      obtain ⟨j, pnt, rfl, -, hpnt, rfl⟩ := newPathExt_cases (ok_of_void hcall)
      exact hjunction j pnt type rule (some ext) hpnt rfl
  | _ => cases hstart

theorem reaches_segmentLayerOf {ops : List WireEntry} {idx : Nat} (h : Reaches (layerOf tech) ops idx) :
    Reaches (segmentLayerOf tech) ops idx := by
  obtain ⟨v, hv⟩ := h
  induction hv with
  | here hentry hv =>
      refine reaches_here hentry ?_
      unfold segmentLayerOf
      split_ifs
      · exact Option.some_ne_none _
      · rw [hv]
        exact Option.some_ne_none _
  | back hentry hnone hprev _ ih => exact reaches_back hentry hprev ih

theorem no_coordinate {entries : List WireEntry} (h : OfOps call.opcodes entries)
    (hcall : call.isPoint = false) {entry : WireEntry} (hentry : entry ∈ entries) :
    ¬(xOf entry ≠ none ∨ yOf entry ≠ none) := by
  obtain ⟨hX, hY⟩ := EncoderCall.coordinate_not_mem_opcodes hcall
  obtain ⟨op, hmem, hop⟩ := h entry hentry
  rintro (hx | hy)
  · refine hx (if_neg ?_)
    rw [hop]
    rintro heq
    exact hX (Option.some.inj heq ▸ hmem)
  · refine hy (if_neg ?_)
    rw [hop]
    rintro heq
    exact hY (Option.some.inj heq ▸ hmem)

namespace OnPath

/-- Calls that start no path. -/
theorem perform_other (h : OnPath tech E started) (hvalid : E.Valid last)
    (hpoint : call.isPoint = true → started = true) (hstart : call.beginsPath = false)
    (hcall : E.perform tech call = .ok (E', id)) : OnPath tech E' started := by
  obtain ⟨entries, hops, hentries⟩ := hvalid.perform_ops hcall
  have hno : ∀ entry ∈ entries, WireOp.ofOpcode entry.1 ≠ some WOP_JUNCTION := by
    intro entry hentry hop
    obtain ⟨op, hmem, hop'⟩ := hentries entry hentry
    obtain rfl := Option.some.inj (hop'.symm.trans hop)
    exact EncoderCall.junction_not_mem_opcodes hstart hmem
  have hlast : ∀ {α : Type} {f : WireEntry → Option α}, Reaches f E.ops (E.ops.length - 1) →
      Reaches f E'.ops (E'.ops.length - 1) := by
    intro α f hreach
    obtain ⟨v, hv⟩ := hreach
    obtain ⟨entry, hentry⟩ := hv.exists_entry
    have hlt := (List.getElem?_eq_some_iff.mp hentry).1
    rw [hops]
    refine Reaches.last ⟨v, hv⟩ hno ?_ ?_ <;> rw [List.length_append] <;> omega
  refine ⟨fun i entry hentry hcoord => ?_, fun hstarted => hlast (h.layer hstarted), fun hrule => ?_⟩
  · rw [hops] at hentry ⊢
    by_cases hi : i < E.ops.length
    · rw [List.getElem?_append_left hi] at hentry
      exact (h.points i entry hentry hcoord).append entries
    · have hlt := (List.getElem?_eq_some_iff.mp hentry).1
      rw [List.getElem?_append_right (Nat.le_of_not_lt hi)] at hentry
      have hmem := List.mem_of_getElem? hentry
      have hisPoint : call.isPoint = true := by
        by_contra hnot
        exact no_coordinate hentries (Bool.eq_false_iff.mpr hnot) hmem hcoord
      exact Reaches.last (h.layer (hpoint hisPoint)) hno (by omega) hlt
  · rw [perform_rule hstart hcall] at hrule
    exact hlast (h.rule hrule)

/-- Calls that start a path. -/
theorem perform_start (h : OnPath tech E started) (hvalid : E.Valid last)
    (hstart : call.beginsPath = true) (hcall : E.perform tech call = .ok (E', id)) :
    OnPath tech E' true := by
  obtain ⟨entries, hentries_eq, hentries⟩ := hvalid.perform_ops hcall
  obtain ⟨first, rest, hops, hno, hfirst, hrule⟩ := DbWireEncoder.perform_start hvalid hstart hcall
  obtain rfl : entries = first :: rest := List.append_cancel_left (hentries_eq.symm.trans hops)
  have hat : (E.ops ++ [first])[E.ops.length]? = some first := List.getElem?_concat_length
  have hsplit : E'.ops = (E.ops ++ [first]) ++ rest := by rw [hops, List.append_assoc]; rfl
  refine ⟨fun i entry hentry hcoord => ?_, fun _ => ?_, fun hne => ?_⟩
  · rw [hops] at hentry ⊢
    by_cases hi : i < E.ops.length
    · rw [List.getElem?_append_left hi] at hentry
      exact (h.points i entry hentry hcoord).append _
    · rw [List.getElem?_append_right (Nat.le_of_not_lt hi)] at hentry
      exact absurd hcoord (no_coordinate hentries (EncoderCall.isPoint_of_beginsPath hstart)
        (List.mem_of_getElem? hentry))
  · have hlayer : Reaches (segmentLayerOf tech) (E.ops ++ [first]) E.ops.length := by
      rcases hfirst with hsome | ⟨j, hprev, hreach⟩
      · exact reaches_here hat hsome
      · exact reaches_back hat hprev ((reaches_segmentLayerOf hreach).append _)
    rw [hsplit]
    refine hlayer.append_others (by simp) hno ?_ ?_ <;>
      simp only [List.length_append, List.length_singleton] <;> omega
  · obtain ⟨entry, hentry, hsome⟩ := hrule hne
    obtain ⟨pre, post, rfl⟩ := List.append_of_mem hentry
    have hhere : Reaches (ruleOf tech) ((E.ops ++ [first] ++ pre) ++ [entry])
        (E.ops ++ [first] ++ pre).length := reaches_here List.getElem?_concat_length hsome
    have hsplit' : E'.ops = ((E.ops ++ [first] ++ pre) ++ [entry]) ++ post := by
      rw [hsplit]
      simp
    rw [hsplit']
    have hlen := @List.length_append _ (E.ops ++ [first] ++ pre) [entry]
    refine hhere.append_others hlen.symm (fun e he => hno e ?_) ?_ ?_
    · exact List.mem_append_right _ (List.mem_cons_of_mem _ he)
    · simp only [List.length_append, List.length_singleton]
      omega
    · simp only [List.length_append, List.length_singleton]
      omega

theorem perform (h : OnPath tech E started) (hvalid : E.Valid last)
    (hpoint : call.isPoint = true → started = true) (hcall : E.perform tech call = .ok (E', id)) :
    OnPath tech E' (started || call.beginsPath) := by
  cases hstart : call.beginsPath with
  | true =>
      rw [Bool.or_true]
      exact h.perform_start hvalid hstart hcall
  | false =>
      rw [Bool.or_false]
      exact h.perform_other hvalid hpoint hstart hcall

end OnPath

/-- What holds of an encoder on whose wire no point was added before a path. -/
def Encoded (tech : DbTech) (E : DbWireEncoder) (started : Bool) : Prop :=
  OnPath tech E started ∧ ∃ last seen, E.Valid last ∧ Sees tech E seen

theorem run_encoded {calls : List EncoderCall} (h : Encoded tech E started)
    (hcalls : EncoderCall.onPaths started calls = true)
    (hrun : Run.run (step tech) E calls = some E') : ∃ started', Encoded tech E' started' := by
  have hstep : ∀ call calls F F', (∃ started, EncoderCall.onPaths started (call :: calls) = true ∧
      Encoded tech F started) → step tech F call = some F' →
      ∃ started, EncoderCall.onPaths started calls = true ∧ Encoded tech F' started := by
    rintro call calls F F' ⟨started, hcalls, honPath, last, seen, hvalid, hsees⟩ hstep
    obtain ⟨id, hcall⟩ := step_eq_some hstep
    obtain ⟨hpoint, hcalls⟩ := (Bool.and_eq_true _ _).mp hcalls
    have hpoint' : call.isPoint = true → started = true := by
      intro hisPoint
      rwa [hisPoint] at hpoint
    obtain ⟨-, -, -, hvalid'⟩ := hvalid.perform hcall
    exact ⟨_, hcalls, honPath.perform hvalid hpoint' hcall, _, _, hvalid',
      (hsees.perform hvalid hcall).1⟩
  obtain ⟨started', -, hencoded⟩ := @Run.run_rest _ _ _
    (fun calls F => ∃ started, EncoderCall.onPaths started calls = true ∧ Encoded tech F started)
    hstep _ _ _ ⟨started, hcalls, h⟩ hrun
  exact ⟨started', hencoded⟩

theorem encoded_init (type : DbWireType) :
    Encoded tech { wireType := getWireType type } false := by
  refine ⟨⟨?_, nofun, fun h => absurd rfl h⟩, type, none, @Valid.begin { wireType := getWireType type }
    type rfl, ⟨fun h => absurd rfl h, fun v => ?_⟩⟩
  · intro i entry hentry
    cases hentry
  · exact iff_of_false not_found_nil nofun

theorem segmentLayerOf_coordinate {entry : WireEntry} (h : xOf entry ≠ none ∨ yOf entry ≠ none) :
    segmentLayerOf tech entry = none := by
  unfold xOf yOf at h
  unfold segmentLayerOf layerOf
  cases hop : WireOp.ofOpcode entry.1 with
  | none => simp
  | some op => cases op <;> simp_all

/-- The entry of a point that is not the first one of its path. -/
theorem pointCall_entry {x y : Int} {ext : Option Int} {property : Nat}
    (hcall : E.perform tech (pointCall x y ext property) = .ok (E', id)) (hfirst : E.pointCnt ≠ 0) :
    id = E.ops.length ∧ ∃ op value more, (op = WOP_X ∨ op = WOP_Y ∨ op = WOP_COLINEAR) ∧
      E'.ops = E.ops ++ (E.pointOp op ext, value) :: more := by
  obtain ⟨E₁, prevExt, hadd, rfl⟩ := pointCall_cases hcall
  have hpoint : id = E.ops.length ∧ ∃ op value more, (op = WOP_X ∨ op = WOP_Y ∨ op = WOP_COLINEAR) ∧
      E₁.ops = E.ops ++ (E.pointOp op ext, value) :: more := by
    cases hadd with
    | first hzero => exact absurd hzero hfirst
    | colinear _ hx hy _ => exact ⟨rfl, WOP_COLINEAR, ext.getD 0, [], Or.inr (Or.inr rfl), rfl⟩
    | horizontal _ hx hy => exact ⟨rfl, WOP_X, x, extEntries ext, Or.inl rfl, rfl⟩
    | vertical _ hx hy => exact ⟨rfl, WOP_Y, y, extEntries ext, Or.inr (Or.inl rfl), rfl⟩
  obtain ⟨hid, op, value, more, hop, hops⟩ := hpoint
  refine ⟨hid, op, value, more ++ (E₁.insertedRule ++ E₁.propertyEntries property), hop, ?_⟩
  rw [pointEnd, hops, List.append_assoc]
  rfl

theorem hasFlag_pointOp_width {op : WireOp} (hop : op = WOP_X ∨ op = WOP_Y ∨ op = WOP_COLINEAR)
    (ext : Option Int) :
    hasFlag (E.pointOp op ext) WOP_DEFAULT_WIDTH = decide (E.nonDefaultRule = 0) := by
  unfold pointOp widthFlag
  by_cases hzero : E.nonDefaultRule = 0
  · rcases hop with rfl | rfl | rfl <;> cases ext <;> simp [hzero] <;> decide
  · rcases hop with rfl | rfl | rfl <;> cases ext <;> simp [hzero] <;> decide

/-- For every encoded wire and every point of it that is not the first one of its path, both overloads
find the same segment exactly where no via lies before the extension of the previous point, and no rule
of another width is passed before the layer. -/
theorem getSegment_pointCall_iff {type : DbWireType} {before after : List EncoderCall} {x y : Int}
    {ext : Option Int} {property : Nat} {E'' : DbWireEncoder}
    (hpaths : EncoderCall.onPaths false before = true)
    (hbefore : Run.run (step tech) { wireType := getWireType type } before = some E)
    (hcall : E.perform tech (pointCall x y ext property) = .ok (E', id))
    (hafter : Run.run (step tech) E' after = some E'') (hfirst : E.pointCnt ≠ 0) :
    (∃ segment, getSegment tech E''.ops id = some segment ∧
      getSegmentOnLayer tech E''.ops id segment.layer = some segment) ↔
        SameSegment tech (way E''.ops (some id)) := by
  obtain ⟨started, honPath, last, seen, hvalid, hsees⟩ := run_encoded (encoded_init type) hpaths hbefore
  obtain ⟨-, -, -, hvalid'⟩ := hvalid.perform hcall
  obtain ⟨last', entries, hvalid'', hops''⟩ := run_valid hvalid' hafter
  obtain ⟨rfl, op, value, more, hop, hops'⟩ := pointCall_entry hcall hfirst
  have hback := hvalid''.backward
  have hops : E''.ops = E.ops ++ ((E.pointOp op ext, value) :: (more ++ entries)) := by
    rw [hops'', hops', List.append_assoc]
    rfl
  have hentry : E''.ops[E.ops.length]? = some (E.pointOp op ext, value) := by
    rw [hops, List.getElem?_append_right le_rfl, Nat.sub_self]
    rfl
  obtain ⟨input, hinput⟩ : ∃ input, coordInput (E.pointOp op ext, value) = some input := by
    unfold coordInput
    rcases hop with rfl | rfl | rfl <;> simp
  obtain ⟨hx, hy⟩ := hsees.point hfirst
  obtain ⟨entry, hlast⟩ := hx.exists_entry
  have hpos : E.ops.length - 1 < E.ops.length := (List.getElem?_eq_some_iff.mp hlast).1
  have hprev : prevIdx (E.pointOp op ext, value) E.ops.length = some (E.ops.length - 1) := by
    obtain ⟨k, hk⟩ : ∃ k, E.ops.length = k + 1 := ⟨E.ops.length - 1, by omega⟩
    unfold prevIdx
    rw [if_neg (by rcases hop with rfl | rfl | rfl <;> simp), hk]
    rfl
  have hway := way_some hback hentry
  rw [hprev] at hway
  have hfound : ∀ {f : WireEntry → Option Int} {v : Int}, Found f E.ops (E.idx - 1) v →
      ∃ e ∈ way E''.ops (some (E.ops.length - 1)), f e.2 ≠ none := by
    intro f v hf
    have hfind := (found_iff_way hback).mp (hops ▸ hf.append _)
    obtain ⟨e, he, hsome⟩ := List.exists_of_findSome?_eq_some hfind
    exact ⟨e, he, by rw [hsome]; exact Option.some_ne_none _⟩
  have hstate : stateAfter 0 (E.ops.length, (E.pointOp op ext, value)) = input.next 0 := by
    unfold stateAfter
    rw [hinput]
  obtain ⟨hge, hle⟩ := next_zero input
  obtain ⟨taken, a, rest, hsplit, hcoord, hknown⟩ := @runUntil_stateAfter (input.next 0) (by omega)
    (by omega) _ (fun _ => hfound hx) (fun _ => hfound hy)
  have ha := way_suffix hback hsplit
  obtain ⟨hentry_a, hle_a⟩ := @way_mem _ a.1 a.2 hback (E.ops.length - 1) (by rw [hsplit]; simp)
  have hentry_a' : E.ops[a.1]? = some a.2 := by
    rw [hops, List.getElem?_append_left (by omega)] at hentry_a
    exact hentry_a
  refine @sameSegment_iff _ _ hback _ _ hentry _ hinput rest ?_ ?_ ?_
  · rw [hway, runUntil_stateAfter_cons (by omega), hstate]
    exact hknown
  · obtain ⟨v, hv⟩ := honPath.points a.1 a.2 hentry_a' hcoord
    have hfind := (found_iff_way hback).mp (hops ▸ hv.append _)
    rw [ha, List.findSome?_cons, segmentLayerOf_coordinate hcoord] at hfind
    obtain ⟨e, he, hsome⟩ := List.exists_of_findSome?_eq_some hfind
    exact ⟨e, he, Option.isSome_iff_exists.mpr ⟨v, hsome⟩⟩
  · intro hflag
    rw [hasFlag_pointOp_width hop] at hflag
    have hreach := (honPath.rule (of_decide_eq_false hflag)).append
      ((E.pointOp op ext, value) :: (more ++ entries))
    rw [← hops] at hreach
    obtain ⟨v, hv⟩ := reaches_back hentry hprev hreach
    exact Option.isSome_iff_exists.mpr ⟨v, (found_iff_way hback).mp hv⟩

open DbWireDecoder (twoLayers)

/-- The second point of a path. -/
theorem getSegment_pointCall_second : ∃ E E' id,
    Run.run (step twoLayers) { wireType := getWireType .NONE } [.newPath 1 .ROUTED, .addPointExt 0 0 5 0] =
      some E ∧
    E.perform twoLayers (pointCall 100 0 none 0) = .ok (E', id) ∧
    SameSegment twoLayers (way E'.ops (some id)) := by
  refine ⟨_, _, _, rfl, rfl, ?_⟩
  exact (@getSegment_pointCall_iff twoLayers _ _ _ .NONE [.newPath 1 .ROUTED, .addPointExt 0 0 5 0] []
    100 0 none 0 _ rfl rfl rfl rfl (by decide)).mp ⟨_, rfl, rfl⟩

/-- After a via, the overload that is given the layer takes the extension of the point below it. -/
theorem getSegment_ne_afterVia : ∃ E E' id segment,
    Run.run (step twoLayers) { wireType := getWireType .NONE }
      [.newPath 1 .ROUTED, .addPointExt 0 0 5 0, .addVia 3] = some E ∧
    E.perform twoLayers (pointCall 100 0 none 0) = .ok (E', id) ∧ E.pointCnt ≠ 0 ∧
    getSegment twoLayers E'.ops id = some segment ∧ segment.hasCurExt = false ∧
    getSegmentOnLayer twoLayers E'.ops id segment.layer =
      some { segment with curExt := 5, hasCurExt := true } :=
  ⟨_, _, _, _, rfl, rfl, by decide, rfl, rfl, rfl⟩

end DbWireEncoder

end OpenRoad.Db
