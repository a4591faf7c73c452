import OpenRoad.DbWireCodec
import OpenRoad.DbWireWalk

/-!
Paths that go on from a junction. `getPrevPoint` finds the point of a junction id, and the layer on
which its path was: except where the path is a virtual wire, whose start it runs past.
-/

namespace OpenRoad.Db

open WireOp

namespace EncoderCall

/-- The calls that add a point. -/
def isPoint : EncoderCall → Bool
  | .addPoint _ _ _ | .addPointExt _ _ _ _ => true
  | _ => false

/-- The calls that return a junction id. -/
def isJunction : EncoderCall → Bool
  | .addPoint _ _ _ | .addPointExt _ _ _ _ | .addVia _ | .addTechVia _ => true
  | _ => false

/-- The layer of the last path start that is no virtual wire, or of the last via, if there is one;
`E` is the encoder after the call. -/
def seenLayer (E : DbWireEncoder) (seen : Option Nat) : EncoderCall → Option Nat
  | .newPath _ _ | .newPathRule _ _ _ | .newPathShort _ _ _ _ | .newPathFrom _ _ _
  | .newPathExt _ _ _ _ | .addVia _ | .addTechVia _ => some E.layer
  | _ => seen

end EncoderCall

namespace DbWireEncoder

/-- The junction ids that the calls return, with the point and the layer of the path right after. -/
def junctions (tech : DbTech) (E : DbWireEncoder) : List EncoderCall → List (Nat × WirePoint)
  | [] => []
  | call :: calls =>
      match E.perform tech call with
      | .error _ => []
      | .ok (E', id) =>
          (if call.isJunction then [(id, ⟨E'.x, E'.y, E'.layer⟩)] else []) ++
            junctions tech E' calls

/-- Points are added only where the layer of the path is that of the last path start that is no
virtual wire, or of a via since then. -/
def layersSeen (tech : DbTech) (E : DbWireEncoder) (seen : Option Nat) : List EncoderCall → Bool
  | [] => true
  | call :: calls =>
      (!call.isPoint || seen == some E.layer) &&
        match E.perform tech call with
        | .error _ => true
        | .ok (E', _) => layersSeen tech E' (call.seenLayer E' seen) calls

end DbWireEncoder

/-! ### What the walk sees -/

/-- Entries that the walk back goes past. -/
def silent (entry : WireEntry) : Bool :=
  match WireOp.ofOpcode entry.1 with
  | some .WOP_PATH | some .WOP_SHORT | some .WOP_JUNCTION | some .WOP_X | some .WOP_Y | some .WOP_VIA
  | some .WOP_TECH_VIA => false
  | _ => true

theorem silent_of_op {entry : WireEntry} {op : WireOp} (h : WireOp.ofOpcode entry.1 = some op)
    (hop : silent (op.code, 0) = true) : silent entry = true := by
  unfold silent at hop ⊢
  rw [h]
  rw [WireOp.ofOpcode_code] at hop
  exact hop

/-- The point found from an entry, and the layer if there is one. -/
structure SeesAt (tech : DbTech) (ops : List WireEntry) (idx : Nat) (x y : Int) (seen : Option Nat) :
    Prop where
  x : Found xOf ops idx x
  y : Found yOf ops idx y
  layer : ∀ v, Found (layerOf tech) ops idx v ↔ seen = some v

variable {tech : DbTech} {ops : List WireEntry} {seen : Option Nat}

section Silent

variable {entries : List WireEntry} (hsilent : ∀ entry ∈ entries, silent entry = true)

include hsilent

theorem skipped_xOf : Skipped xOf entries := by
  intro entry hentry
  have h := hsilent entry hentry
  unfold silent at h
  unfold xOf
  constructor <;> split at h <;> simp_all

theorem skipped_yOf : Skipped yOf entries := by
  intro entry hentry
  have h := hsilent entry hentry
  unfold silent at h
  unfold yOf
  constructor <;> split at h <;> simp_all

theorem skipped_layerOf : Skipped (layerOf tech) entries := by
  intro entry hentry
  have h := hsilent entry hentry
  unfold silent at h
  unfold layerOf
  constructor <;> split at h <;> simp_all

end Silent

/-- The encoder's last entry sees the point of the path, and the layer `seen`. -/
structure Sees (tech : DbTech) (E : DbWireEncoder) (seen : Option Nat) : Prop where
  point : E.pointCnt ≠ 0 → Found xOf E.ops (E.idx - 1) E.x ∧ Found yOf E.ops (E.idx - 1) E.y
  layer : ∀ v, Found (layerOf tech) E.ops (E.idx - 1) v ↔ seen = some v

namespace Sees

variable {E E' : DbWireEncoder} {last : DbWireType} {entries : List WireEntry}

/-- Entries that the walk goes past. -/
theorem silent (h : Sees tech E seen) (hback : BackwardJunctions E.ops)
    (hsilent : ∀ entry ∈ entries, silent entry = true) (hops : E'.ops = E.ops ++ entries)
    (hpoint : E'.pointCnt ≠ 0 → E.pointCnt ≠ 0 ∧ E'.x = E.x ∧ E'.y = E.y) : Sees tech E' seen := by
  constructor
  · intro hcnt
    obtain ⟨hcnt', hx, hy⟩ := hpoint hcnt
    obtain ⟨hfx, hfy⟩ := h.point hcnt'
    rw [DbWireEncoder.idx, hops, hx, hy, found_skip hback (skipped_xOf hsilent),
      found_skip hback (skipped_yOf hsilent)]
    exact ⟨hfx, hfy⟩
  · intro v
    rw [DbWireEncoder.idx, hops, found_skip hback (skipped_layerOf hsilent)]
    exact h.layer v

end Sees

/-- Where the point of a junction id is seen, `getPrevPoint` finds it with the layer that is seen. -/
theorem SeesAt.getPrevPoint_iff {head rest : List WireEntry} {id : Nat} {x y : Int}
    (h : SeesAt tech head id x y seen) (hid : id + 1 = head.length)
    (hback : BackwardJunctions (head ++ rest)) (hhead : BackwardJunctions head) (layer : Nat) :
    getPrevPoint tech (head ++ rest) id true = some ⟨x, y, layer⟩ ↔ seen = some layer := by
  have hlt : id < head.length := by omega
  rw [OpenRoad.Db.getPrevPoint_iff hback, found_append hhead _ hlt, found_append hhead _ hlt,
    found_append hhead _ hlt, h.layer]
  exact ⟨fun hall => hall.2.2, fun hseen => ⟨h.x, h.y, hseen⟩⟩

/-- The last entry before entries that the walk goes past. -/
theorem SeesAt.sees {E' : DbWireEncoder} {head rest : List WireEntry} {id : Nat} {x y : Int}
    (h : SeesAt tech head id x y seen) (hid : id + 1 = head.length)
    (hhead : BackwardJunctions head) (hops : E'.ops = head ++ rest)
    (hsilent : ∀ entry ∈ rest, silent entry = true) (hEx : E'.x = x) (hEy : E'.y = y) :
    Sees tech E' seen := by
  have hid' : id = head.length - 1 := by omega
  obtain ⟨hx, hy, hlayer⟩ := h
  rw [hid'] at hx hy hlayer
  constructor
  · intro _
    rw [DbWireEncoder.idx, hops, hEx, hEy, found_skip hhead (skipped_xOf hsilent),
      found_skip hhead (skipped_yOf hsilent)]
    exact ⟨hx, hy⟩
  · intro v
    rw [DbWireEncoder.idx, hops, found_skip hhead (skipped_layerOf hsilent)]
    exact hlayer v

/-! ### Points, vias and path starts -/

section

variable {E E₁ : DbWireEncoder}

open DbWireEncoder

/-- The entry of a point sees the point, and the layer that was seen before it. -/
theorem Sees.pointAdded (h : Sees tech E seen) (hback : BackwardJunctions E.ops) {x y : Int}
    {ext : Option Int} {id : Nat} (hadd : PointAdded E x y ext E₁ id) :
    ∃ head rest, E₁.ops = head ++ rest ∧ id + 1 = head.length ∧
      (∀ entry ∈ rest, Db.silent entry = true) ∧ SeesAt tech head id E₁.x E₁.y seen := by
  have hext : ∀ entry ∈ extEntries ext, Db.silent entry = true := fun entry hentry =>
    silent_of_op (ofOpcode_extEntries entry hentry) (by decide)
  cases hadd with
  | first hcnt =>
      have hback' : BackwardJunctions (E.ops ++ [(E.pointOp WOP_X none, x)]) :=
        hback.append_others (by simp)
      refine ⟨E.ops ++ [(E.pointOp WOP_X none, x)] ++ [(E.pointOp WOP_Y ext, y)], extEntries ext,
        by simp, by simp [DbWireEncoder.idx], hext, ?_, ?_, fun v => ?_⟩
      · have hlen : E.idx + 1 = (E.ops ++ [(E.pointOp WOP_X none, x)]).length := by
          simp [DbWireEncoder.idx]
        rw [hlen, found_last_skip hback' (by simp [xOf]) (by simp)]
        simp only [List.length_append, List.length_singleton, Nat.add_sub_cancel]
        exact (found_last_here (by simp [xOf])).mpr rfl
      · have hlen : E.idx + 1 = (E.ops ++ [(E.pointOp WOP_X none, x)]).length := by
          simp [DbWireEncoder.idx]
        rw [hlen]
        exact (found_last_here (by simp [yOf])).mpr rfl
      · have hlen : E.idx + 1 = (E.ops ++ [(E.pointOp WOP_X none, x)]).length := by
          simp [DbWireEncoder.idx]
        rw [hlen, found_last_skip hback' (by simp [layerOf]) (by simp)]
        simp only [List.length_append, List.length_singleton, Nat.add_sub_cancel]
        rw [found_last_skip hback (by simp [layerOf]) (by simp)]
        exact h.layer v
  | colinear hcnt hx hy hrule =>
      obtain ⟨hfx, hfy⟩ := h.point hcnt
      refine ⟨E.ops ++ [(E.pointOp WOP_COLINEAR ext, ext.getD 0)], [], by simp,
        by simp [DbWireEncoder.idx], by simp, ?_, ?_, fun v => ?_⟩
      · exact (found_last_skip hback (by simp [xOf]) (by simp)).mpr hfx
      · exact (found_last_skip hback (by simp [yOf]) (by simp)).mpr hfy
      · exact (found_last_skip hback (by simp [layerOf]) (by simp)).trans (h.layer v)
  | horizontal hcnt hx hy =>
      obtain ⟨hfx, hfy⟩ := h.point hcnt
      refine ⟨E.ops ++ [(E.pointOp WOP_X ext, x)], extEntries ext, by simp,
        by simp [DbWireEncoder.idx], hext, ?_, ?_, fun v => ?_⟩
      · exact (found_last_here (by simp [xOf])).mpr rfl
      · exact (found_last_skip hback (by simp [yOf]) (by simp)).mpr hfy
      · exact (found_last_skip hback (by simp [layerOf]) (by simp)).trans (h.layer v)
  | vertical hcnt hx hy =>
      obtain ⟨hfx, hfy⟩ := h.point hcnt
      refine ⟨E.ops ++ [(E.pointOp WOP_Y ext, y)], extEntries ext, by simp,
        by simp [DbWireEncoder.idx], hext, ?_, ?_, fun v => ?_⟩
      · exact (found_last_skip hback (by simp [xOf]) (by simp)).mpr hfx
      · exact (found_last_here (by simp [yOf])).mpr rfl
      · exact (found_last_skip hback (by simp [layerOf]) (by simp)).trans (h.layer v)

/-- The entry of a via sees the point before it, and the layer on which the path goes on. -/
theorem Sees.via (h : Sees tech E seen) (hback : BackwardJunctions E.ops) (hcnt : E.pointCnt ≠ 0)
    {E' : DbWireEncoder} {entry : WireEntry} {rest : List WireEntry} {layer : Nat}
    (hlayer : layerOf tech entry = some layer) (hx : xOf entry = none) (hy : yOf entry = none)
    (hop : WireOp.ofOpcode entry.1 ≠ some WOP_JUNCTION) (hops : E'.ops = E.ops ++ [entry] ++ rest)
    (hsilent : ∀ entry ∈ rest, Db.silent entry = true) (hback' : BackwardJunctions E'.ops)
    (hEx : E'.x = E.x) (hEy : E'.y = E.y) :
    Sees tech E' (some layer) ∧ E.idx < E'.idx ∧
      getPrevPoint tech E'.ops E.idx true = some ⟨E'.x, E'.y, layer⟩ := by
  obtain ⟨hfx, hfy⟩ := h.point hcnt
  have hid : E.idx + 1 = (E.ops ++ [entry]).length := by simp [DbWireEncoder.idx]
  have hsees : SeesAt tech (E.ops ++ [entry]) E.idx E.x E.y (some layer) := by
    refine ⟨(found_last_skip hback hx hop).mpr hfx, (found_last_skip hback hy hop).mpr hfy,
      fun v => ?_⟩
    rw [DbWireEncoder.idx, found_last_here hlayer, Option.some_inj]
    exact eq_comm
  rw [hops] at hback'
  refine ⟨hsees.sees hid hback'.left hops hsilent hEx hEy, ?_, ?_⟩
  · have hlen : E'.idx = E.idx + 1 + rest.length := by
      rw [hid, ← List.length_append, ← hops]
      rfl
    omega
  · rw [hops, hEx, hEy]
    exact (hsees.getPrevPoint_iff hid hback' hback'.left layer).mpr rfl

/-- The start of a path that names its layer. -/
theorem sees_start {E' : DbWireEncoder} {entry : WireEntry} {rest : List WireEntry} {layer : Nat}
    (hlayer : layerOf tech entry = some layer) (hback : BackwardJunctions (E.ops ++ [entry]))
    (hops : E'.ops = E.ops ++ [entry] ++ rest)
    (hsilent : ∀ entry ∈ rest, Db.silent entry = true) (hcnt : E'.pointCnt = 0) :
    Sees tech E' (some layer) := by
  constructor
  · intro hne
    exact absurd hcnt hne
  · intro v
    rw [DbWireEncoder.idx, hops, found_skip hback (skipped_layerOf hsilent)]
    simp only [List.length_append, List.length_singleton, Nat.add_sub_cancel]
    rw [found_last_here hlayer, Option.some_inj]
    exact eq_comm

/-- The start of a path at a junction sees what the walk found from there. -/
theorem sees_junction {E' : DbWireEncoder} {op : UInt8} {j : Nat} {rest : List WireEntry}
    {pnt : WirePoint} (hback : BackwardJunctions E.ops)
    (hop : WireOp.ofOpcode op = some WOP_JUNCTION) (hj : j < E.idx)
    (hpnt : getPrevPoint tech E.ops j true = some pnt)
    (hops : E'.ops = E.ops ++ [(op, (j : Int))] ++ rest)
    (hsilent : ∀ entry ∈ rest, Db.silent entry = true) (hx : E'.x = pnt.x) (hy : E'.y = pnt.y)
    (hback' : BackwardJunctions (E.ops ++ [(op, (j : Int))])) :
    Sees tech E' (some pnt.layer) := by
  obtain ⟨hfx, hfy, hflayer⟩ := (getPrevPoint_iff hback).mp hpnt
  have hid : E.idx + 1 = (E.ops ++ [(op, (j : Int))]).length := by simp [DbWireEncoder.idx]
  refine SeesAt.sees ⟨?_, ?_, fun v => ?_⟩ hid hback' hops hsilent hx hy
  · exact (found_last_junction hback hop hj (by simp [xOf, hop])).mpr hfx
  · exact (found_last_junction hback hop hj (by simp [yOf, hop])).mpr hfy
  · rw [DbWireEncoder.idx, found_last_junction hback hop hj (by simp [layerOf, hop]), Option.some_inj]
    exact ⟨fun hv => hflayer.unique hv, fun hv => hv ▸ hflayer⟩

end

/-! ### Calls -/

namespace Sees

variable {E E' : DbWireEncoder} {last : DbWireType}

open DbWireEncoder

theorem silent_rule (rule : Option DbTechLayerRule) :
    ∀ entry ∈ ruleEntries rule, Db.silent entry = true := fun entry hentry =>
  silent_of_op (ofOpcode_ruleEntries entry hentry) (by decide)

theorem pointEnd (h : Sees tech E seen) (hvalid : E.Valid last) {E₁ : DbWireEncoder} {x y : Int}
    {ext : Option Int} {id : Nat} (hadd : PointAdded E x y ext E₁ id) (property : Nat) (prevExt : Bool) :
    Sees tech (E₁.pointEnd property prevExt) seen ∧ id < (E₁.pointEnd property prevExt).idx ∧
      (getPrevPoint tech (E₁.pointEnd property prevExt).ops id true =
        some ⟨E₁.x, E₁.y, E₁.layer⟩ ↔ seen = some E.layer) := by
  obtain ⟨-, -, -, hvalid₁⟩ := hvalid.pointAdded hadd
  have hvalid' : (E₁.pointEnd property prevExt).Valid last := by
    obtain ⟨-, -, -, hvalid'⟩ := hvalid.pointEnd hadd
    exact hvalid'
  obtain ⟨head, rest, hops₁, hid, hsilent, hsees⟩ := h.pointAdded hvalid.backward hadd
  have hlayer : E₁.layer = E.layer := by cases hadd <;> rfl
  have hops : (E₁.pointEnd property prevExt).ops =
      head ++ (rest ++ (E₁.insertedRule ++ E₁.propertyEntries property)) := by
    rw [DbWireEncoder.pointEnd, hops₁, List.append_assoc]
  have hsilent' : ∀ entry ∈ rest ++ (E₁.insertedRule ++ E₁.propertyEntries property),
      Db.silent entry = true := by
    intro entry hentry
    rcases List.mem_append.mp hentry with hentry | hentry
    · exact hsilent entry hentry
    rcases List.mem_append.mp hentry with hentry | hentry
    · exact silent_of_op (hvalid₁.ofOpcode_insertedRule entry hentry) (by decide)
    · exact silent_of_op (E₁.ofOpcode_propertyEntries property entry hentry) (by decide)
  have hback : BackwardJunctions (head ++ (rest ++ (E₁.insertedRule ++ E₁.propertyEntries property))) := by
    rw [← hops]
    exact hvalid'.backward
  refine ⟨hsees.sees hid hback.left hops hsilent' rfl rfl, ?_, ?_⟩
  · rw [DbWireEncoder.idx, hops, List.length_append]
    omega
  · rw [hops, hsees.getPrevPoint_iff hid hback hback.left, hlayer]

theorem pathStarted {op : WireOp} (hop : op = WOP_PATH ∨ op = WOP_SHORT) (layer : Nat)
    (type : DbWireType) (rule : Option DbTechLayerRule) {rest : List WireEntry}
    (hsilent : ∀ entry ∈ rest, Db.silent entry = true)
    (hback : BackwardJunctions (E.pathStarted layer (getWireType type) rule
      ((op.code ||| getWireType type, (layer : Int)) :: rest)).ops) :
    Sees tech (E.pathStarted layer (getWireType type) rule
        ((op.code ||| getWireType type, (layer : Int)) :: rest))
      (some (E.pathStarted layer (getWireType type) rule
        ((op.code ||| getWireType type, (layer : Int)) :: rest)).layer) := by
  have hlayer : layerOf tech (op.code ||| getWireType type, (layer : Int)) =
      some (E.startPath layer (getWireType type) rule).layer := by
    rw [startPath_layer]
    rcases hop with rfl | rfl <;> simp [layerOf]
  have hsplit : (E.pathStarted layer (getWireType type) rule
      ((op.code ||| getWireType type, (layer : Int)) :: rest)).ops =
      E.ops ++ [(op.code ||| getWireType type, (layer : Int))] ++ rest := by
    simp [DbWireEncoder.pathStarted]
  rw [hsplit] at hback
  exact sees_start hlayer hback.left hsplit hsilent (startPath_pointCnt E layer _ rule)

theorem junctionStarted (hvalid : E.Valid last) {j : Nat} (hj : j < E.idx)
    {pnt : WirePoint} (hpnt : getPrevPoint tech E.ops j true = some pnt) (type : Option DbWireType)
    (rule : Option DbTechLayerRule) (ext : Option Int)
    (hback : BackwardJunctions (E.junctionStarted pnt j (E.givenType type) rule ext).ops) :
    Sees tech (E.junctionStarted pnt j (E.givenType type) rule ext)
      (some (E.junctionStarted pnt j (E.givenType type) rule ext).layer) := by
  have hop : WireOp.ofOpcode (WOP_JUNCTION.code ||| E.givenType type) = some WOP_JUNCTION := by
    rw [hvalid.givenType]
    exact ofOpcode_or_getWireType _ _
  have hlayer : (E.junctionStarted pnt j (E.givenType type) rule ext).layer = pnt.layer :=
    startPath_layer E pnt.layer _ rule
  have hsplit : (E.junctionStarted pnt j (E.givenType type) rule ext).ops =
      E.ops ++ [(WOP_JUNCTION.code ||| E.givenType type, (j : Int))] ++ (ruleEntries rule ++
        [((E.startPath pnt.layer (E.givenType type) rule).pointOp WOP_COLINEAR ext,
          ext.getD 0)]) := by simp [DbWireEncoder.junctionStarted]
  rw [hsplit] at hback
  rw [hlayer]
  refine sees_junction hvalid.backward hop hj hpnt hsplit (fun entry hentry => ?_) rfl rfl hback.left
  rcases List.mem_append.mp hentry with hentry | hentry
  · exact silent_rule _ entry hentry
  · obtain rfl := List.mem_singleton.mp hentry
    simp [Db.silent]

theorem layerOf_via (via layer : Nat) :
    layerOf tech (viaOp WOP_VIA (tech.getVia via) layer, (via : Int)) =
      some ((tech.getVia via).exitLayer (viaOp WOP_VIA (tech.getVia via) layer)) := by
  simp [layerOf]

theorem layerOf_techVia (via layer : Nat) :
    layerOf tech (viaOp WOP_TECH_VIA (tech.getTechVia via) layer, (via : Int)) =
      some ((tech.getTechVia via).exitLayer (viaOp WOP_TECH_VIA (tech.getTechVia via) layer)) := by
  simp [layerOf]

/-- What the walk sees after a call, and what it finds from the junction id the call returns. -/
theorem perform (h : Sees tech E seen) (hvalid : E.Valid last) {call : EncoderCall} {id : Nat}
    (hcall : E.perform tech call = .ok (E', id)) :
    Sees tech E' (call.seenLayer E' seen) ∧ (call.isJunction = true → id < E'.idx ∧
      (getPrevPoint tech E'.ops id true = some ⟨E'.x, E'.y, E'.layer⟩ ↔
        (call.isPoint = true → seen = some E.layer))) := by
  obtain ⟨-, -, -, hvalid'⟩ := hvalid.perform hcall
  have hback := hvalid.backward
  have hback' := hvalid'.backward
  cases call with
  | addPoint x y property =>
      obtain ⟨E₁, prevExt, hadd, rfl⟩ := addPoint_cases hcall
      obtain ⟨hsees, hid, hfound⟩ := h.pointEnd hvalid hadd property prevExt
      exact ⟨hsees, fun _ => ⟨hid, hfound.trans ⟨fun hseen _ => hseen, fun hseen => hseen rfl⟩⟩⟩
  | addPointExt x y ext property =>
      obtain ⟨E₁, prevExt, hadd, rfl⟩ := addPointExt_cases hcall
      obtain ⟨hsees, hid, hfound⟩ := h.pointEnd hvalid hadd property prevExt
      exact ⟨hsees, fun _ => ⟨hid, hfound.trans ⟨fun hseen _ => hseen, fun hseen => hseen rfl⟩⟩⟩
  | addVia via =>
      obtain ⟨hcnt, rfl, rfl⟩ := addVia_cases hcall
      obtain ⟨hsees, hid, hfound⟩ := h.via hback hcnt (layerOf_via via E.layer) (by simp [xOf])
        (by simp [yOf]) (by simp) (List.append_nil _).symm (by simp) hback' rfl rfl
      exact ⟨hsees, fun _ => ⟨hid, iff_of_true hfound fun hno => Bool.noConfusion hno⟩⟩
  | addTechVia via =>
      obtain ⟨hcnt, rfl, rfl⟩ := addTechVia_cases hcall
      obtain ⟨hsees, hid, hfound⟩ := h.via hback hcnt (layerOf_techVia via E.layer) (by simp [xOf])
        (by simp [yOf]) (by simp) (List.append_cons _ _ [(WOP_COLOR.code, 0)])
        (by simp [Db.silent]) hback' rfl rfl
      exact ⟨hsees, fun _ => ⟨hid, iff_of_true hfound fun hno => Bool.noConfusion hno⟩⟩
  | addRect deltaX1 deltaY1 deltaX2 deltaY2 =>
      obtain rfl := addRect_cases (ok_of_void hcall)
      exact ⟨h.silent hback (by simp [Db.silent]) rfl fun hcnt => ⟨hcnt, rfl, rfl⟩,
        fun hno => Bool.noConfusion hno⟩
  | setColor maskColor =>
      obtain ⟨value, rfl⟩ := setColor_cases (ok_of_void hcall)
      exact ⟨h.silent hback (by simp [Db.silent]) rfl fun hcnt => ⟨hcnt, rfl, rfl⟩,
        fun hno => Bool.noConfusion hno⟩
  | clearColor =>
      cases hcall
      exact ⟨h.silent hback (by simp [Db.silent]) rfl fun hcnt => ⟨hcnt, rfl, rfl⟩,
        fun hno => Bool.noConfusion hno⟩
  | setViaColor bottomColor cutColor topColor =>
      obtain ⟨value, rfl⟩ := setViaColor_cases (ok_of_void hcall)
      exact ⟨h.silent hback (by simp [Db.silent]) rfl fun hcnt => ⟨hcnt, rfl, rfl⟩,
        fun hno => Bool.noConfusion hno⟩
  | clearViaColor =>
      cases hcall
      exact ⟨h.silent hback (by simp [Db.silent]) rfl fun hcnt => ⟨hcnt, rfl, rfl⟩,
        fun hno => Bool.noConfusion hno⟩
  | addITerm iterm =>
      obtain rfl := addTerm_cases (ok_of_void hcall)
      exact ⟨h.silent hback (by simp [Db.silent]) rfl fun hcnt => ⟨hcnt, rfl, rfl⟩,
        fun hno => Bool.noConfusion hno⟩
  | addBTerm bterm =>
      obtain rfl := addTerm_cases (ok_of_void hcall)
      exact ⟨h.silent hback (by simp [Db.silent]) rfl fun hcnt => ⟨hcnt, rfl, rfl⟩,
        fun hno => Bool.noConfusion hno⟩
  | newPath layer type =>
      cases hcall
      exact ⟨pathStarted (Or.inl rfl) layer type none (by simp) hback',
        fun hno => Bool.noConfusion hno⟩
  | newPathRule layer type rule =>
      cases hcall
      rw [newPathRule_eq] at hback' ⊢
      exact ⟨pathStarted (Or.inl rfl) layer type (some rule) (silent_rule _) hback',
        fun hno => Bool.noConfusion hno⟩
  | newPathShort jctId layer type rule =>
      obtain ⟨-, rfl⟩ := newPathOffset_cases (ok_of_void hcall)
      exact ⟨pathStarted (Or.inr rfl) layer type rule
        (List.forall_mem_cons.mpr ⟨by simp [Db.silent], silent_rule _⟩) hback',
        fun hno => Bool.noConfusion hno⟩
  | newPathVirtualWire jctId layer type rule =>
      obtain ⟨-, rfl⟩ := newPathOffset_cases (ok_of_void hcall)
      refine ⟨h.silent hback ?_ rfl fun hcnt => absurd (startPath_pointCnt E layer _ rule) hcnt,
        fun hno => Bool.noConfusion hno⟩
      exact List.forall_mem_cons.mpr ⟨by simp [Db.silent],
        List.forall_mem_cons.mpr ⟨by simp [Db.silent], silent_rule _⟩⟩
  | newPathFrom jctId type rule =>
      obtain ⟨j, pnt, rfl, hj, hpnt, rfl⟩ := newPathFrom_cases (ok_of_void hcall)
      exact ⟨Sees.junctionStarted hvalid hj hpnt type rule none hback', fun hno => Bool.noConfusion hno⟩
  | newPathExt jctId ext type rule =>
      obtain ⟨j, pnt, rfl, hj, hpnt, rfl⟩ := newPathExt_cases (ok_of_void hcall)
      exact ⟨Sees.junctionStarted hvalid hj hpnt type rule (some ext) hback',
        fun hno => Bool.noConfusion hno⟩

end Sees

/-! ### Encodings -/

namespace DbWireEncoder

variable {E E' : DbWireEncoder} {last : DbWireType}

theorem isJunction_of_isPoint {call : EncoderCall} (h : call.isPoint = true) :
    call.isJunction = true := by
  cases call <;> first | rfl | cases h

theorem junctions_iff (h : Sees tech E seen) (hvalid : E.Valid last) {calls : List EncoderCall}
    {elements : List WireElement} (hcalls : E.performAll tech last calls = .ok (E', elements)) :
    (∀ j ∈ junctions tech E calls, getPrevPoint tech E'.ops j.1 true = some j.2) ↔
      layersSeen tech E seen calls = true := by
  induction calls generalizing E last elements seen with
  | nil => simp [junctions, layersSeen]
  | cons call calls ih =>
      obtain ⟨E₁, id, rest, hcall, hrest, -⟩ := performAll_cons hcalls
      obtain ⟨-, -, -, hvalid₁⟩ := hvalid.perform hcall
      obtain ⟨more, hmore, -⟩ := hvalid₁.performAll hrest
      obtain ⟨hsees, hjunction⟩ := h.perform hvalid hcall
      have hhead : (∀ j ∈ (if call.isJunction then
          [(id, (⟨E₁.x, E₁.y, E₁.layer⟩ : WirePoint))] else []),
          getPrevPoint tech E'.ops j.1 true = some j.2) ↔
          (!call.isPoint || seen == some E.layer) = true := by
        have hpoint : (!call.isPoint || seen == some E.layer) = true ↔
            (call.isPoint = true → seen = some E.layer) := by
          cases call.isPoint <;> simp
        rw [hpoint]
        by_cases hid : call.isJunction = true
        · obtain ⟨hlt, hfound⟩ := hjunction hid
          rw [if_pos hid, List.forall_mem_singleton, hmore,
            getPrevPoint_append tech hvalid₁.backward more hlt]
          exact hfound
        · rw [if_neg hid]
          exact iff_of_true (fun j hj => (List.not_mem_nil hj).elim)
            fun hp => absurd (isJunction_of_isPoint hp) hid
      rw [junctions, layersSeen, hcall]
      dsimp only
      rw [List.forall_mem_append, Bool.and_eq_true, hhead, ih hsees hvalid₁ hrest]

/-- From every junction id `getPrevPoint` finds the point and the layer that the path had right after
it, exactly when points are added only where the layer is that of the last path start that is no
virtual wire, or of a via since then. -/
theorem getPrevPoint_junctions_iff (tech : DbTech) (E : DbWireEncoder) (last : DbWireType)
    (hlast : E.wireType = getWireType last) (calls : List EncoderCall) {E' : DbWireEncoder}
    {elements : List WireElement}
    (hcalls : E.begin.performAll tech last calls = .ok (E', elements)) :
    (∀ j ∈ junctions tech E.begin calls, getPrevPoint tech E'.ops j.1 true = some j.2) ↔
      layersSeen tech E.begin none calls = true := by
  have hsees : Sees tech E.begin none :=
    ⟨fun hne => absurd rfl hne, fun v => iff_of_false not_found_nil (by simp)⟩
  exact junctions_iff hsees (Valid.begin hlast) hcalls

/-- A path, and a virtual wire from its end on the same layer, which a via leaves. -/
def vwireOnLayer : List EncoderCall :=
  [.newPath 1 .ROUTED, .addPoint 0 0 0, .addPoint 10 0 0, .newPathVirtualWire 2 1 .ROUTED none,
    .addPoint 10 5 0, .addVia 1, .addPoint 20 5 0]

theorem getPrevPoint_junctions_iff_vwire : ∃ E' elements,
    ({} : DbWireEncoder).begin.performAll DbWireDecoder.twoLayers .NONE vwireOnLayer =
      .ok (E', elements) ∧
    ∀ j ∈ junctions DbWireDecoder.twoLayers ({} : DbWireEncoder).begin vwireOnLayer,
      getPrevPoint DbWireDecoder.twoLayers E'.ops j.1 true = some j.2 :=
  ⟨_, _, rfl, (getPrevPoint_junctions_iff DbWireDecoder.twoLayers {} .NONE rfl vwireOnLayer rfl).mpr
    (by decide)⟩

/-- A virtual wire from a path on the first layer to a point on the second. -/
def vwireOffLayer : List EncoderCall :=
  [.newPath 1 .ROUTED, .addPoint 0 0 0, .newPathVirtualWire 2 2 .ROUTED none, .addPoint 10 5 0]

/-- The layer found from the end of a virtual wire is that of the path before it. -/
theorem not_getPrevPoint_junctions_vwire : ∃ E' elements,
    ({} : DbWireEncoder).begin.performAll DbWireDecoder.twoLayers .NONE vwireOffLayer =
      .ok (E', elements) ∧
    (6, ⟨10, 5, 2⟩) ∈ junctions DbWireDecoder.twoLayers ({} : DbWireEncoder).begin vwireOffLayer ∧
    getPrevPoint DbWireDecoder.twoLayers E'.ops 6 true = some ⟨10, 5, 1⟩ :=
  ⟨_, _, rfl, by decide, by decide⟩

end DbWireEncoder

end OpenRoad.Db
