import OpenRoad.DbWireAppend

/-!
Decoding a wire that another one was appended to. The elements of the first come first, and those of
the second follow with their junction ids shifted: unless the second has a short or a virtual wire,
or begins with a point that would go on with the last path of the first.
-/

namespace OpenRoad.Db

open WireOp

namespace EncoderCall

/-- The calls start a path before they add a point, if they do. -/
def startsPath : List EncoderCall → Bool
  | [] => true
  | call :: calls => if call.isColor then startsPath calls else call.isPathStart

/-- Whether the path has no point yet after a call, given whether it had none before. -/
def opensPath (b : Bool) : EncoderCall → Bool
  | .newPath _ _ | .newPathRule _ _ _ | .newPathShort _ _ _ _ | .newPathVirtualWire _ _ _ _ => true
  | .addPoint _ _ _ | .addPointExt _ _ _ _ | .newPathFrom _ _ _ | .newPathExt _ _ _ _ => false
  | _ => b

/-- The calls end in a path without points. -/
def endsOpen (calls : List EncoderCall) : Bool := calls.foldl opensPath true

end EncoderCall

namespace DbWireDecoder

open DbWireEncoder

variable {tech : DbTech} {ops rest : List WireEntry} {D D' : DbWireDecoder} {E E' : DbWireEncoder}
  {last : DbWireType}

/-! ### The decoder at the end of the first wire -/

theorem noRule_append {entries : List WireEntry} (h : NoRule entries) (hrest : NoRule rest) :
    NoRule (entries ++ rest) := by
  cases entries with
  | nil => exact hrest
  | cons entry entries => exact h

/-- The decoder reads the elements of the calls, and follows the encoder to their end. -/
theorem performAll_reaches (h : Follows E D) (hvalid : E.Valid last) {calls : List EncoderCall}
    {elements : List WireElement} (hcalls : E.performAll tech last calls = .ok (E', elements))
    (hops : ops = E'.ops ++ rest) (hrest : NoRule rest) :
    ∃ D', (scanner tech ops).Reaches D (elements.map WireElement.stored) D' ∧ Follows E' D' := by
  induction calls generalizing E D last elements with
  | nil =>
      cases hcalls
      exact ⟨D, .refl D, h⟩
  | cons call calls ih =>
      obtain ⟨E₁, id, tail, hcall, htail, rfl⟩ := performAll_cons hcalls
      obtain ⟨-, -, -, hvalid₁⟩ := hvalid.perform hcall
      obtain ⟨more, hmore, hnoRule⟩ := hvalid₁.performAll htail
      have hops₁ : ops = E₁.ops ++ (more ++ rest) := by rw [hops, hmore, List.append_assoc]
      obtain ⟨D₁, hreach, hfollow⟩ := h.perform tech hvalid hcall hops₁ (noRule_append hnoRule hrest)
      obtain ⟨D', hreach', hfollow'⟩ := ih hfollow hvalid₁ htail
      rw [List.map_append]
      exact ⟨D', hreach.trans hreach', hfollow'⟩

theorem perform_opensPath {call : EncoderCall} {id : Nat}
    (hcall : E.perform tech call = .ok (E', id)) :
    decide (E'.pointCnt = 0) = call.opensPath (decide (E.pointCnt = 0)) := by
  have hpoint : ∀ {E₁ : DbWireEncoder} {x y : Int} {ext : Option Int} {id property : Nat}
      {prevExt : Bool}, PointAdded E x y ext E₁ id →
      decide ((E₁.pointEnd property prevExt).pointCnt = 0) = false := fun hadd => by
    have hne := Follows.pointCnt_ne_zero hadd
    exact decide_eq_false hne
  cases call with
  | addPoint x y property =>
      obtain ⟨E₁, prevExt, hadd, rfl⟩ := addPoint_cases hcall
      exact hpoint hadd
  | addPointExt x y ext property =>
      obtain ⟨E₁, prevExt, hadd, rfl⟩ := addPointExt_cases hcall
      exact hpoint hadd
  | addVia via =>
      obtain ⟨-, -, rfl⟩ := addVia_cases hcall
      rfl
  | addTechVia via =>
      obtain ⟨-, -, rfl⟩ := addTechVia_cases hcall
      rfl
  | addRect deltaX1 deltaY1 deltaX2 deltaY2 =>
      obtain rfl := addRect_cases (ok_of_void hcall)
      rfl
  | setColor maskColor =>
      obtain ⟨value, rfl⟩ := setColor_cases (ok_of_void hcall)
      rfl
  | clearColor =>
      cases hcall
      rfl
  | setViaColor bottomColor cutColor topColor =>
      obtain ⟨value, rfl⟩ := setViaColor_cases (ok_of_void hcall)
      rfl
  | clearViaColor =>
      cases hcall
      rfl
  | addITerm iterm =>
      obtain rfl := addTerm_cases (ok_of_void hcall)
      rfl
  | addBTerm bterm =>
      obtain rfl := addTerm_cases (ok_of_void hcall)
      rfl
  | newPath layer type =>
      cases hcall
      rfl
  | newPathRule layer type rule =>
      cases hcall
      rfl
  | newPathShort jctId layer type rule =>
      obtain ⟨-, rfl⟩ := newPathOffset_cases (ok_of_void hcall)
      exact decide_eq_true (startPath_pointCnt ..)
  | newPathVirtualWire jctId layer type rule =>
      obtain ⟨-, rfl⟩ := newPathOffset_cases (ok_of_void hcall)
      exact decide_eq_true (startPath_pointCnt ..)
  | newPathFrom jctId type rule =>
      obtain ⟨j, pnt, rfl, -, -, rfl⟩ := newPathFrom_cases (ok_of_void hcall)
      rfl
  | newPathExt jctId ext type rule =>
      obtain ⟨j, pnt, rfl, -, -, rfl⟩ := newPathExt_cases (ok_of_void hcall)
      rfl

theorem performAll_opensPath {calls : List EncoderCall} {elements : List WireElement}
    (hcalls : E.performAll tech last calls = .ok (E', elements)) :
    decide (E'.pointCnt = 0) = calls.foldl EncoderCall.opensPath (decide (E.pointCnt = 0)) := by
  induction calls generalizing E last elements with
  | nil =>
      cases hcalls
      rfl
  | cons call calls ih =>
      obtain ⟨E₁, id, tail, hcall, htail, rfl⟩ := performAll_cons hcalls
      rw [List.foldl_cons, ih htail, perform_opensPath hcall]

/-! ### The start of the second wire -/

/-- The entries start a path before anything else but colors. -/
def startsPath : List WireEntry → Bool
  | [] => true
  | entry :: rest =>
      match WireOp.ofOpcode entry.1 with
      | some .WOP_COLOR | some .WOP_VIACOLOR => startsPath rest
      | some .WOP_PATH | some .WOP_SHORT | some .WOP_JUNCTION | some .WOP_VWIRE => true
      | _ => false

theorem startsPath_cons {entry : WireEntry} {more : List WireEntry}
    (h : startsPath (entry :: more) = true) : ∃ op, WireOp.ofOpcode entry.1 = some op ∧
      ((op = WOP_COLOR ∨ op = WOP_VIACOLOR) ∧ startsPath more = true ∨
        (op = WOP_PATH ∨ op = WOP_SHORT ∨ op = WOP_JUNCTION ∨ op = WOP_VWIRE)) := by
  unfold startsPath at h
  split at h
  · exact ⟨_, ‹_›, Or.inl ⟨Or.inl rfl, h⟩⟩
  · exact ⟨_, ‹_›, Or.inl ⟨Or.inr rfl, h⟩⟩
  · exact ⟨_, ‹_›, Or.inr (Or.inl rfl)⟩
  · exact ⟨_, ‹_›, Or.inr (Or.inr (Or.inl rfl))⟩
  · exact ⟨_, ‹_›, Or.inr (Or.inr (Or.inr (Or.inl rfl)))⟩
  · exact ⟨_, ‹_›, Or.inr (Or.inr (Or.inr (Or.inr rfl)))⟩
  · cases h

/-- The start of a path does not depend on the points before it. -/
theorem pass_start {entry : WireEntry} {more : List WireEntry} (hdrop : ops.drop D.idx = entry :: more)
    {op : WireOp} (hop : WireOp.ofOpcode entry.1 = some op)
    (hstart : op = WOP_PATH ∨ op = WOP_SHORT ∨ op = WOP_JUNCTION ∨ op = WOP_VWIRE) (cnt : Nat) :
    pass tech ops { D with pointCnt := cnt } = pass tech ops D := by
  rw [pass_at tech hdrop, pass_at tech (D := { D with pointCnt := cnt }) hdrop]
  rcases hstart with rfl | rfl | rfl | rfl <;> simp only [decodeEntry, hop] <;> rfl

variable (tech) in
/-- A color is read whatever the points before it. -/
theorem pass_color {entry : WireEntry} {more : List WireEntry} (hdrop : ops.drop D.idx = entry :: more)
    {op : WireOp} (hop : WireOp.ofOpcode entry.1 = some op)
    (hcolor : op = WOP_COLOR ∨ op = WOP_VIACOLOR) (cnt : Nat) :
    ∃ D', pass tech ops D = some (.goto D') ∧ D'.idx = D.idx + 1 ∧
      pass tech ops { D with pointCnt := cnt } = some (.goto { D' with pointCnt := cnt }) := by
  rw [pass_at tech hdrop, pass_at tech (D := { D with pointCnt := cnt }) hdrop]
  rcases hcolor with rfl | rfl <;> simp only [decodeEntry, hop] <;> exact ⟨_, rfl, rfl, rfl⟩

/-- A path start is decoded whatever the points before it. -/
theorem scans_start {elements : List WireElement} (hscan : (scanner tech ops).Scans D elements)
    (hstart : startsPath (ops.drop D.idx) = true) (cnt : Nat) :
    (scanner tech ops).Scans { D with pointCnt := cnt } elements := by
  have hcons : ∀ {D D' : DbWireDecoder}, (scanner tech ops).left D' < (scanner tech ops).left D →
      ∃ entry more, ops.drop D.idx = entry :: more := by
    intro D D' hleft
    refine List.exists_cons_of_ne_nil fun hnil => ?_
    have hlen := congrArg List.length hnil
    rw [List.length_drop] at hlen
    change ops.length - D'.idx < ops.length - D.idx at hleft
    rw [hlen] at hleft
    exact Nat.not_lt_zero _ hleft
  induction hscan with
  | nil hleft => exact .nil hleft
  | @goto D D' es hpass hleft hrest ih =>
      obtain ⟨entry, more, hdrop⟩ := hcons hleft
      obtain ⟨op, hop, ⟨hcolor, hmore⟩ | hpath⟩ := startsPath_cons (hdrop ▸ hstart)
      · obtain ⟨D₁, hpass₁, hidx, hgoto⟩ := pass_color tech hdrop hop hcolor cnt
        cases hpass.symm.trans hpass₁
        exact .goto hgoto hleft (ih (by rw [hidx, drop_succ hdrop]; exact hmore))
      · exact .goto ((pass_start hdrop hop hpath cnt).trans hpass) hleft hrest
  | @ret D D' es hpass hleft hrest ih =>
      obtain ⟨entry, more, hdrop⟩ := hcons hleft
      obtain ⟨op, hop, ⟨hcolor, -⟩ | hpath⟩ := startsPath_cons (hdrop ▸ hstart)
      · obtain ⟨D₁, hpass₁, -⟩ := pass_color tech hdrop hop hcolor cnt
        cases hpass.symm.trans hpass₁
      · exact .ret ((pass_start hdrop hop hpath cnt).trans hpass) hleft hrest

theorem startsPath_fix (sz : Nat) (entries : List WireEntry) :
    startsPath (entries.map (fixJunction sz)) = startsPath entries := by
  induction entries with
  | nil => rfl
  | cons entry entries ih => rw [List.map_cons, startsPath, startsPath, fixJunction_op, ih]

theorem startsPath_color {entry : WireEntry} (more : List WireEntry)
    (h : WireOp.ofOpcode entry.1 = some WOP_COLOR ∨ WireOp.ofOpcode entry.1 = some WOP_VIACOLOR) :
    startsPath (entry :: more) = startsPath more := by
  rw [startsPath]
  rcases h with h | h <;> rw [h]

theorem startsPath_path {op : UInt8} {o : WireOp} {type : DbWireType} (value : Int)
    (more : List WireEntry) (hop : op = o.code ||| getWireType type)
    (h : o = WOP_PATH ∨ o = WOP_SHORT ∨ o = WOP_JUNCTION ∨ o = WOP_VWIRE) :
    startsPath ((op, value) :: more) = true := by
  rw [startsPath, hop, ofOpcode_or_getWireType]
  rcases h with rfl | rfl | rfl | rfl <;> rfl

/-- A path starts with an entry that is decoded whatever the points before it. -/
theorem perform_startsPath {call : EncoderCall} {id : Nat} (hvalid : E.Valid last)
    (hcall : E.perform tech call = .ok (E', id)) (hstart : call.isPathStart = true) :
    ∃ entries, E'.ops = E.ops ++ entries ∧ ∀ more, startsPath (entries ++ more) = true := by
  cases call with
  | newPath layer type =>
      cases hcall
      exact ⟨_, rfl, fun more => startsPath_path layer more rfl (Or.inl rfl)⟩
  | newPathRule layer type rule =>
      cases hcall
      rw [newPathRule_eq]
      exact ⟨_, rfl, fun more => startsPath_path layer _ rfl (Or.inl rfl)⟩
  | newPathShort jctId layer type rule =>
      obtain ⟨-, rfl⟩ := newPathOffset_cases (ok_of_void hcall)
      exact ⟨_, rfl, fun more => startsPath_path layer _ rfl (Or.inr (Or.inl rfl))⟩
  | newPathVirtualWire jctId layer type rule =>
      obtain ⟨-, rfl⟩ := newPathOffset_cases (ok_of_void hcall)
      exact ⟨_, rfl, fun more => startsPath_path layer _ rfl (Or.inr (Or.inr (Or.inr rfl)))⟩
  | newPathFrom jctId type rule =>
      obtain ⟨j, pnt, rfl, -, -, rfl⟩ := newPathFrom_cases (ok_of_void hcall)
      rw [hvalid.givenType]
      exact ⟨_, rfl, fun more => startsPath_path j _ rfl (Or.inr (Or.inr (Or.inl rfl)))⟩
  | newPathExt jctId ext type rule =>
      obtain ⟨j, pnt, rfl, -, -, rfl⟩ := newPathExt_cases (ok_of_void hcall)
      rw [hvalid.givenType]
      exact ⟨_, rfl, fun more => startsPath_path j _ rfl (Or.inr (Or.inr (Or.inl rfl)))⟩
  | _ => cases hstart

theorem perform_isColor {call : EncoderCall} {id : Nat} (hcall : E.perform tech call = .ok (E', id))
    (hcolor : call.isColor = true) : ∃ op value, (op = WOP_COLOR ∨ op = WOP_VIACOLOR) ∧
      E' = { E with ops := E.ops ++ [(WireOp.code op, value)] } := by
  cases call with
  | setColor maskColor =>
      obtain ⟨value, rfl⟩ := setColor_cases (ok_of_void hcall)
      exact ⟨_, value, Or.inl rfl, rfl⟩
  | clearColor =>
      cases hcall
      exact ⟨_, 0, Or.inl rfl, rfl⟩
  | setViaColor bottomColor cutColor topColor =>
      obtain ⟨value, rfl⟩ := setViaColor_cases (ok_of_void hcall)
      exact ⟨_, value, Or.inr rfl, rfl⟩
  | clearViaColor =>
      cases hcall
      exact ⟨_, 0, Or.inr rfl, rfl⟩
  | _ => cases hcolor

/-- Calls that start a path first append entries that do. -/
theorem performAll_startsPath {calls : List EncoderCall} {elements : List WireElement}
    (hcalls : E.performAll tech last calls = .ok (E', elements)) (hvalid : E.Valid last)
    (hstart : EncoderCall.startsPath calls = true) :
    ∃ entries, E'.ops = E.ops ++ entries ∧ startsPath entries = true := by
  induction calls generalizing E last elements with
  | nil =>
      cases hcalls
      exact ⟨[], (List.append_nil _).symm, rfl⟩
  | cons call calls ih =>
      obtain ⟨E₁, id, tail, hcall, htail, -⟩ := performAll_cons hcalls
      obtain ⟨-, -, -, hvalid₁⟩ := hvalid.perform hcall
      rw [EncoderCall.startsPath] at hstart
      by_cases hcolor : call.isColor = true
      · rw [if_pos hcolor] at hstart
        obtain ⟨op, value, hop, rfl⟩ := perform_isColor hcall hcolor
        obtain ⟨entries, hops, hentries⟩ := ih htail hvalid₁ hstart
        refine ⟨(op.code, value) :: entries, hops.trans (List.append_assoc _ _ _), ?_⟩
        rw [startsPath_color]
        · exact hentries
        · rcases hop with rfl | rfl
          · exact Or.inl (WireOp.ofOpcode_code _)
          · exact Or.inr (WireOp.ofOpcode_code _)
      · rw [if_neg hcolor] at hstart
        obtain ⟨entries, hops, hentries⟩ := perform_startsPath hvalid hcall hstart
        obtain ⟨more, hmore, -⟩ := hvalid₁.performAll htail
        exact ⟨entries ++ more, by rw [hmore, hops, List.append_assoc], hentries more⟩

/-! ### A point outside a path -/

theorem drop_append_shift (d s : List WireEntry) (k : Nat) :
    (DbWire.append d s).drop (d.length + k) = (s.drop k).map (fixJunction d.length) := by
  unfold DbWire.append
  rw [List.drop_append, List.drop_eq_nil_of_le (Nat.le_add_right _ _), Nat.add_sub_cancel_left,
    List.nil_append, List.map_drop]

variable {d : List WireEntry}

/-- A first point is read as one more point of the path before it. -/
theorem not_scans_first {elements : List WireElement} (hD : D.pointCnt ≠ 0)
    (hidx : D.idx = d.length + E.idx) (hcnt : E.pointCnt = 0) {x y : Int} {ext : Option Int} {id : Nat}
    {E₁ : DbWireEncoder} (hadd : PointAdded E x y ext E₁ id) {property : Nat} {prevExt : Bool}
    {more : List WireEntry} (hmore : E'.ops = (E₁.pointEnd property prevExt).ops ++ more)
    (hops : ops = DbWire.append d E'.ops) :
    ¬(scanner tech ops).Scans D ((pointElement ext x y id).shift d.length :: elements) := by
  obtain ⟨more', hmore'⟩ : ∃ more', E'.ops = E₁.ops ++ more' :=
    ⟨_, hmore.trans (by rw [DbWireEncoder.pointEnd]; exact List.append_assoc _ _ _)⟩
  cases hadd with
  | colinear hne => exact absurd hcnt hne
  | horizontal hne => exact absurd hcnt hne
  | vertical hne => exact absurd hcnt hne
  | first =>
      have hfix : ∀ (op : WireOp) (ext : Option Int) (value : Int) (sz : Nat), op = WOP_X ∨ op = WOP_Y →
          fixJunction sz (E.pointOp op ext, value) = (E.pointOp op ext, value) := by
        intro op ext value sz hop
        refine fixJunction_of_op (E.ofOpcode_pointOp op ext) ?_ ?_ ?_ sz <;>
          rcases hop with rfl | rfl <;> decide
      have hdrop : ops.drop D.idx = (E.pointOp WOP_X none, x) :: (extEntries none ++ ([] ++
          ((E.pointOp WOP_Y ext, y) :: (extEntries ext ++ more').map (fixJunction d.length)))) := by
        rw [hops, hidx, drop_append_shift, hmore', List.append_assoc]
        change (List.drop E.ops.length _).map _ = _
        rw [List.drop_left, List.cons_append, List.map_cons, hfix _ _ _ _ (Or.inl rfl),
          List.cons_append, List.map_cons, hfix _ _ _ _ (Or.inr rfl)]
        rfl
      have hflush : Flushed [] ((E.pointOp WOP_Y ext, y) ::
          (extEntries ext ++ more').map (fixJunction d.length)) := by
        refine ⟨fun _ h => (List.not_mem_nil h).elim, Nat.zero_le 1, fun _ entry hentry => ?_⟩
        obtain rfl := Option.some.inj hentry
        rw [E.ofOpcode_pointOp]
        decide
      obtain ⟨D₁, hret, hidx₁, -, -, -, -, helem⟩ := pass_x tech hdrop (E.ofOpcode_pointOp _ _)
        (E.hasFlag_pointOp WOP_X none) hD hflush
      have hreach := Follows.reaches tech hret (by omega) hdrop
      intro hscan
      obtain ⟨rest, -, heq⟩ := hreach.scans_rest hscan
      have hhead := (List.cons.inj heq).1
      rw [helem] at hhead
      cases ext with
      | none =>
          injection hhead with _ _ hid
          omega
      | some ext => cases hhead

/-- Where the calls begin with a point and the decoder is in a path with points, it does not read
the elements of the calls. -/
theorem not_scans_open {calls : List EncoderCall} {elements : List WireElement}
    (hcalls : E.performAll tech last calls = .ok (E', elements)) (hvalid : E.Valid last)
    (hcnt : E.pointCnt = 0) (hD : D.pointCnt ≠ 0) (hidx : D.idx = d.length + E.idx)
    (hops : ops = DbWire.append d E'.ops) (hstart : EncoderCall.startsPath calls = false) :
    ¬(scanner tech ops).Scans D ((elements.map WireElement.stored).map (WireElement.shift d.length)) := by
  induction calls generalizing E D last elements with
  | nil => cases hstart
  | cons call calls ih =>
      obtain ⟨E₁, id, tail, hcall, htail, rfl⟩ := performAll_cons hcalls
      obtain ⟨-, -, -, hvalid₁⟩ := hvalid.perform hcall
      obtain ⟨more, hmore, -⟩ := hvalid₁.performAll htail
      rw [EncoderCall.startsPath] at hstart
      by_cases hcolor : call.isColor = true
      · rw [if_pos hcolor] at hstart
        obtain ⟨op, value, hop, rfl⟩ := perform_isColor hcall hcolor
        have hnone : call.elements { E with ops := E.ops ++ [(op.code, value)] } id
            (call.type?.getD last) = [] := by
          cases call <;> first | rfl | cases hcolor
        have hdrop : ops.drop D.idx = (op.code, value) :: more.map (fixJunction d.length) := by
          rw [hops, hidx, drop_append_shift, hmore, List.append_assoc]
          change (List.drop E.ops.length _).map _ = _
          rw [List.drop_left, List.cons_append, List.map_cons]
          refine congrArg (· :: _) (fixJunction_of_op (WireOp.ofOpcode_code op) ?_ ?_ ?_ _) <;>
            rcases hop with rfl | rfl <;> decide
        obtain ⟨D₁, hreach, hidx₁, -, -, hcnt₁⟩ := Follows.reaches_skip tech hdrop (Or.inr hop)
        have hidx' : D₁.idx = d.length + DbWireEncoder.idx { E with ops := E.ops ++ [(op.code, value)] } := by
          rw [hidx₁, hidx, DbWireEncoder.idx, DbWireEncoder.idx, List.length_append]
          rfl
        intro hscan
        rw [hnone] at hscan
        obtain ⟨rest, hrest, heq⟩ := hreach.scans_rest hscan
        rw [List.nil_append] at heq
        subst heq
        exact ih htail hvalid₁ hcnt (hcnt₁ ▸ hD) hidx' hstart hrest
      · rw [if_neg hcolor] at hstart
        cases call with
        | addPoint x y property =>
            obtain ⟨P, prevExt, hadd, rfl⟩ := addPoint_cases hcall
            exact not_scans_first hD hidx hcnt hadd hmore hops
        | addPointExt x y ext property =>
            obtain ⟨P, prevExt, hadd, rfl⟩ := addPointExt_cases hcall
            exact not_scans_first hD hidx hcnt hadd hmore hops
        | addVia via => exact absurd hcnt (addVia_cases hcall).1
        | addTechVia via => exact absurd hcnt (addTechVia_cases hcall).1
        | addRect deltaX1 deltaY1 deltaX2 deltaY2 =>
            have hrect := ok_of_void hcall
            rw [addRect, if_pos hcnt] at hrect
            cases hrect
        | addITerm iterm =>
            have hterm := ok_of_void hcall
            rw [DbWireEncoder.addITerm, addTerm, if_pos hcnt] at hterm
            cases hterm
        | addBTerm bterm =>
            have hterm := ok_of_void hcall
            rw [DbWireEncoder.addBTerm, addTerm, if_pos hcnt] at hterm
            cases hterm
        | setColor maskColor => exact absurd rfl hcolor
        | clearColor => exact absurd rfl hcolor
        | setViaColor bottomColor cutColor topColor => exact absurd rfl hcolor
        | clearViaColor => exact absurd rfl hcolor
        | _ => cases hstart

/-! ### Shorts and virtual wires -/

theorem stored_shift (element : WireElement) (n : Nat) :
    (element.shift n).stored = element.stored.shift n := by
  cases element <;> rfl

theorem map_stored_shift (elements : List WireElement) (n : Nat) :
    (elements.map (WireElement.shift n)).map WireElement.stored =
      (elements.map WireElement.stored).map (WireElement.shift n) := by
  rw [List.map_map, List.map_map]
  exact List.map_congr_left fun element _ => stored_shift element n

/-- The fix-up shifts the layer of a short or a virtual wire, and leaves its junction. -/
theorem not_scans_offset {op : WireOp} (hop : op = WOP_SHORT ∨ op = WOP_VWIRE) (hd : d ≠ [])
    {layer : Nat} {jct : Int} {type : DbWireType} {rest : List WireEntry}
    (hdrop : ops.drop D.idx = fixJunction d.length (op.code ||| getWireType type, (layer : Int)) ::
      fixJunction d.length (WOP_OPERAND.code, jct) :: rest)
    {element : WireElement} (helement : element = .short (jct + d.length) layer type.stored ∨
      element = .vwire (jct + d.length) layer type.stored) {elements : List WireElement} :
    ¬(scanner tech ops).Scans D (element :: elements) := by
  have hpos : d.length ≠ 0 := fun h0 => hd (List.eq_nil_of_length_eq_zero h0)
  have hoperand : fixJunction d.length (WOP_OPERAND.code, jct) = (WOP_OPERAND.code, jct) :=
    fixJunction_of_op (WireOp.ofOpcode_code WOP_OPERAND) (by decide) (by decide) (by decide) _
  have hlayer : fixJunction d.length (op.code ||| getWireType type, (layer : Int)) =
      (op.code ||| getWireType type, ((layer + d.length : Nat) : Int)) := by
    unfold fixJunction
    rw [ofOpcode_or_getWireType]
    rcases hop with rfl | rfl <;> rfl
  rw [hoperand, hlayer] at hdrop
  intro hscan
  rcases hop with rfl | rfl
  · obtain ⟨D₁, hret, hidx, -, -, helem⟩ := pass_short tech hdrop
    have hreach := Follows.reaches tech hret (by omega) hdrop
    obtain ⟨more, -, heq⟩ := hreach.scans_rest hscan
    have hhead := (List.cons.inj heq).1
    rw [helem] at hhead
    rcases helement with rfl | rfl
    · injection hhead with hjct
      omega
    · cases hhead
  · obtain ⟨D₁, hret, hidx, -, -, helem⟩ := pass_vwire tech hdrop
    have hreach := Follows.reaches tech hret (by omega) hdrop
    obtain ⟨more, -, heq⟩ := hreach.scans_rest hscan
    have hhead := (List.cons.inj heq).1
    rw [helem] at hhead
    rcases helement with rfl | rfl
    · cases hhead
    · injection hhead with hjct
      omega

theorem noRule_fix (sz : Nat) {entries : List WireEntry} (h : NoRule entries) :
    NoRule (entries.map (fixJunction sz)) := by
  cases entries with
  | nil => exact h
  | cons entry entries =>
      intro e he
      obtain rfl := Option.some.inj he
      rw [fixJunction_op]
      exact h entry rfl

/-- Where one of the calls starts a short or a virtual wire, the decoder does not read the elements
of the calls. -/
theorem not_scans_of_offset (hd : d ≠ []) {calls : List EncoderCall} {elements : List WireElement}
    (h : Follows (E.onto d) D) (hvalid : E.Valid last) (hvalid' : (E.onto d).Valid last)
    (hshort : ∀ entry ∈ E.ops, WireOp.ofOpcode entry.1 ≠ some WOP_SHORT)
    (hcalls : E.performAll tech last calls = .ok (E', elements)) (hops : ops = DbWire.append d E'.ops)
    (hoffset : ∃ call ∈ calls, call.isOffset = true) :
    ¬(scanner tech ops).Scans D ((elements.map WireElement.stored).map (WireElement.shift d.length)) := by
  induction calls generalizing E D last elements with
  | nil =>
      obtain ⟨call, hmem, -⟩ := hoffset
      exact (List.not_mem_nil hmem).elim
  | cons call calls ih =>
      obtain ⟨E₁, id, tail, hcall, htail, rfl⟩ := performAll_cons hcalls
      obtain ⟨-, -, -, hvalid₁⟩ := hvalid.perform hcall
      obtain ⟨more, hmore, hnoRule⟩ := hvalid₁.performAll htail
      by_cases hhead : call.isOffset = true
      · have hdrop : ∀ {entries : List WireEntry}, E₁.ops = E.ops ++ entries → ops.drop D.idx =
            (entries ++ more).map (fixJunction d.length) := by
          intro entries hE₁
          rw [hops, h.idx, onto_idx, drop_append_shift, hmore, hE₁, List.append_assoc]
          change (List.drop E.ops.length _).map _ = _
          rw [List.drop_left]
        cases call with
        | newPathShort jctId layer type rule =>
            obtain ⟨-, rfl⟩ := newPathOffset_cases (ok_of_void hcall)
            exact not_scans_offset (Or.inl rfl) hd (hdrop rfl) (Or.inl rfl)
        | newPathVirtualWire jctId layer type rule =>
            obtain ⟨-, rfl⟩ := newPathOffset_cases (ok_of_void hcall)
            exact not_scans_offset (Or.inr rfl) hd (hdrop rfl) (Or.inr rfl)
        | _ => cases hhead
      · rw [Bool.not_eq_true] at hhead
        obtain ⟨id', hcall', helem⟩ := perform_onto hvalid hvalid' hshort hcall hhead
        obtain ⟨-, -, -, hvalid₁'⟩ := hvalid'.perform hcall'
        rw [type?_shift] at hvalid₁'
        have hops₁ : ops = (E₁.onto d).ops ++ more.map (fixJunction d.length) := by
          rw [hops, hmore]
          unfold DbWireEncoder.onto DbWire.append
          rw [List.map_append, List.append_assoc]
        obtain ⟨D₁, hreach, hfollow⟩ := h.perform tech hvalid' hcall' hops₁ (noRule_fix _ hnoRule)
        rw [type?_shift, helem, map_stored_shift] at hreach
        intro hscan
        rw [List.map_append, List.map_append] at hscan
        obtain ⟨rest, hrest, heq⟩ := hreach.scans_rest hscan
        obtain rfl := List.append_cancel_left heq
        obtain ⟨call', hmem, hcall'⟩ := hoffset
        refine ih hfollow hvalid₁ hvalid₁' (perform_noShort hvalid hcall hhead hshort) htail
          ⟨call', (List.mem_cons.mp hmem).resolve_left fun heq => ?_, hcall'⟩ hrest
        rw [heq, hhead] at hcall'
        cases hcall'

/-! ### Appended wires -/

theorem progress (D : DbWireDecoder) (p : Pass DbWireDecoder) (hleft : (scanner tech ops).left D ≠ 0)
    (hpass : pass tech ops D = some p) (D' : DbWireDecoder) (hp : p = .goto D' ∨ p = .ret D') :
    (scanner tech ops).left D' < (scanner tech ops).left D := by
  obtain ⟨hidx, -⟩ := pass_colors hpass hp
  change ops.length - D'.idx < ops.length - D.idx
  change ops.length - D.idx ≠ 0 at hleft
  omega

theorem performAll_backward (hvalid : E.Valid last) {calls : List EncoderCall}
    {elements : List WireElement} (hcalls : E.performAll tech last calls = .ok (E', elements)) :
    BackwardJunctions E'.ops := by
  induction calls generalizing E last elements with
  | nil =>
      cases hcalls
      exact hvalid.backward
  | cons call calls ih =>
      obtain ⟨E₁, id, tail, hcall, htail, -⟩ := performAll_cons hcalls
      obtain ⟨-, -, -, hvalid₁⟩ := hvalid.perform hcall
      exact ih hvalid₁ htail

variable {last' : DbWireType} {F F' : DbWireEncoder}

/-- After the wire of `E'`, the decoder reads the elements of the other calls exactly when none of
them starts a short or a virtual wire, and they do not go on with its last path. -/
theorem scans_append_iff (hd : E'.ops ≠ []) (hback : BackwardJunctions E'.ops) (h : Follows E' D)
    (hlast : F.wireType = getWireType last') {calls : List EncoderCall} {elements : List WireElement}
    (hcalls : F.begin.performAll tech last' calls = .ok (F', elements)) :
    (scanner tech (DbWire.append E'.ops F'.ops)).Scans D
      ((elements.map WireElement.stored).map (WireElement.shift E'.ops.length)) ↔
      (∀ call ∈ calls, call.isOffset = false) ∧
        (EncoderCall.startsPath calls = true ∨ E'.pointCnt = 0) := by
  have hvalidF : F.begin.Valid last' := Valid.begin hlast
  have hvalidF' : (F.begin.onto E'.ops).Valid last' := by
    refine ⟨?_, fun hne => absurd rfl hne, hlast⟩
    change BackwardJunctions (E'.ops ++ [])
    rw [List.append_nil]
    exact hback
  have hshort : ∀ entry ∈ F.begin.ops, WireOp.ofOpcode entry.1 ≠ some WOP_SHORT := fun entry hentry =>
    (List.not_mem_nil hentry).elim
  have hidx : D.idx = E'.ops.length + F.begin.idx := h.idx
  by_cases hstart : EncoderCall.startsPath calls = true ∨ E'.pointCnt = 0
  · have hfollow : Follows (F.begin.onto E'.ops) { D with pointCnt := 0 } :=
      ⟨hidx.trans (onto_idx _ _).symm, fun hne => absurd rfl hne, iff_of_true rfl rfl⟩
    have hfresh : ∀ es, (scanner tech (DbWire.append E'.ops F'.ops)).Scans D es ↔
        (scanner tech (DbWire.append E'.ops F'.ops)).Scans { D with pointCnt := 0 } es := by
      intro es
      rcases hstart with hstart | hcnt
      · obtain ⟨entries, hops, hentries⟩ := performAll_startsPath hcalls hvalidF hstart
        have hdrop : startsPath ((DbWire.append E'.ops F'.ops).drop D.idx) = true := by
          rw [hidx, drop_append_shift, startsPath_fix, hops]
          exact hentries
        exact ⟨fun hscan => scans_start hscan hdrop 0,
          fun hscan => scans_start (D := { D with pointCnt := 0 }) hscan hdrop D.pointCnt⟩
      · have hsame : { D with pointCnt := 0 } = D := by
          rw [← h.pointCnt.mpr hcnt]
        rw [hsame]
    rw [hfresh]
    refine ⟨fun hscan => ⟨fun call hmem => ?_, hstart⟩, fun hcond => ?_⟩
    · refine Bool.eq_false_iff.mpr fun hoffset => ?_
      exact not_scans_of_offset hd hfollow hvalidF hvalidF' hshort hcalls rfl
        ⟨call, hmem, hoffset⟩ hscan
    · have hcalls' := performAll_onto hvalidF hvalidF' hshort hcalls hcond.1
      rw [← map_stored_shift]
      exact hfollow.performAll hvalidF' hcalls'
  · refine iff_of_false ?_ fun hcond => hstart hcond.2
    rw [not_or, Bool.not_eq_true] at hstart
    refine not_scans_open hcalls hvalidF rfl ?_ hidx rfl hstart.1
    exact fun h0 => hstart.2 (h.pointCnt.mp h0)

theorem append_nil (s : List WireEntry) : DbWire.append [] s = s := by
  have hfix : ∀ entry ∈ s, fixJunction 0 entry = entry := fun entry _ => by
    unfold fixJunction
    split <;> simp
  unfold DbWire.append
  rw [List.nil_append]
  exact (List.map_congr_left hfix).trans (List.map_id' s)

theorem map_shift_zero (elements : List WireElement) : elements.map (WireElement.shift 0) = elements := by
  have hshift : ∀ element ∈ elements, WireElement.shift 0 element = element := fun element _ => by
    cases element <;> simp [WireElement.shift]
  exact (List.map_congr_left hshift).trans (List.map_id' elements)

/-- A decoder of the appended wires reads the elements of the first, and then those of the second
with their junction ids shifted, exactly when nothing is appended to, or the second has no short and
no virtual wire, and does not begin with a point that goes on with the last path of the first. -/
theorem decode_append_iff (tech : DbTech) (E F : DbWireEncoder) (last last' : DbWireType)
    (hlast : E.wireType = getWireType last) (hlast' : F.wireType = getWireType last')
    (calls calls' : List EncoderCall) {d s : List WireEntry} {elements elements' : List WireElement}
    (hd : E.encode tech last [] calls = .ok (d, elements))
    (hs : F.encode tech last' [] calls' = .ok (s, elements')) :
    (∃ l l', decode tech d = some l ∧ decode tech s = some l' ∧
      decode tech (DbWire.append d s) = some (l ++ l'.map (WireElement.shift d.length))) ↔
    d = [] ∨ (∀ call ∈ calls', call.isOffset = false) ∧
      (EncoderCall.startsPath calls' = true ∨ EncoderCall.endsOpen calls = true) := by
  have hl := decode_encode tech E last hlast [] calls (fun _ => rfl) hd
  have hl' := decode_encode tech F last' hlast' [] calls' (fun _ => rfl) hs
  obtain ⟨E', hall, rfl⟩ := encode_cases hlast (fun _ => rfl) hd
  obtain ⟨F', hall', rfl⟩ := encode_cases hlast' (fun _ => rfl) hs
  have hvalid : E.begin.Valid last := Valid.begin hlast
  have hopen : E'.pointCnt = 0 ↔ EncoderCall.endsOpen calls = true := by
    have hcnt := performAll_opensPath hall
    exact ⟨fun h0 => hcnt.symm.trans (decide_eq_true h0), fun h1 => of_decide_eq_true (hcnt.trans h1)⟩
  by_cases hnil : E'.ops = []
  · refine iff_of_true ⟨_, _, hl, hl', ?_⟩ (Or.inl hnil)
    have hnone : elements.map WireElement.stored = [] := by
      rw [hnil] at hl
      exact (Option.some.inj hl).symm
    rw [hnil, append_nil, hnone, hl']
    exact congrArg some (map_shift_zero _).symm
  · have hnoRule : NoRule (F'.ops.map (fixJunction E'.ops.length)) := by
      obtain ⟨entries, hops, hentries⟩ := (Valid.begin hlast').performAll hall'
      rw [hops]
      exact noRule_fix _ hentries
    have hops : DbWire.append E'.ops F'.ops = E'.ops ++ F'.ops.map (fixJunction E'.ops.length) := rfl
    obtain ⟨D, hreach, hfollow⟩ := performAll_reaches
      (⟨rfl, fun hne => absurd rfl hne, Iff.rfl⟩ : Follows E.begin {}) hvalid hall hops hnoRule
    rw [or_iff_right hnil, ← hopen,
      ← scans_append_iff hnil (performAll_backward hvalid hall) hfollow hlast' hall']
    constructor
    · rintro ⟨l, l', hdl, hsl, happ⟩
      obtain rfl := Option.some.inj (hl.symm.trans hdl)
      obtain rfl := Option.some.inj (hl'.symm.trans hsl)
      obtain ⟨rest, hrest, heq⟩ := hreach.scans_rest (Scanner.scans_of_collect progress happ)
      rw [List.append_cancel_left heq]
      exact hrest
    · intro hscan
      exact ⟨_, _, hl, hl', (hreach.scans hscan).collect (Nat.lt_succ_self _)⟩

theorem decode_append_iff_junction : ∃ d s elements elements',
    ({} : DbWireEncoder).encode twoLayers .NONE []
      [.newPath 1 .ROUTED, .addPoint 0 0 0, .addPoint 5 0 0] = .ok (d, elements) ∧
    ({} : DbWireEncoder).encode twoLayers .NONE []
      [.newPath 1 .ROUTED, .addPoint 5 0 0, .addVia 1, .newPathFrom 2 none none, .addPoint 5 7 0] =
      .ok (s, elements') ∧
    ∃ l l', decode twoLayers d = some l ∧ decode twoLayers s = some l' ∧
      decode twoLayers (DbWire.append d s) = some (l ++ l'.map (WireElement.shift d.length)) :=
  ⟨_, _, _, _, rfl, rfl, (decode_append_iff twoLayers {} {} .NONE .NONE rfl rfl
    [.newPath 1 .ROUTED, .addPoint 0 0 0, .addPoint 5 0 0]
    [.newPath 1 .ROUTED, .addPoint 5 0 0, .addVia 1, .newPathFrom 2 none none, .addPoint 5 7 0]
    rfl rfl).mpr (Or.inr (by decide))⟩

/-- A short of the appended wire comes back on another layer, from a junction of the first wire. -/
theorem not_decode_append : ∃ d s l l',
    (({} : DbWireEncoder).encode twoLayers .NONE []
      [.newPath 1 .ROUTED, .addPoint 0 0 0, .addPoint 5 0 0]).toOption.map Prod.fst = some d ∧
    (({} : DbWireEncoder).encode twoLayers .NONE []
      [.newPath 1 .ROUTED, .addPoint 5 0 0, .newPathShort 2 1 .ROUTED none, .addPoint 5 7 0]).toOption.map
      Prod.fst = some s ∧
    decode twoLayers d = some l ∧ decode twoLayers s = some l' ∧
      decode twoLayers (DbWire.append d s) ≠ some (l ++ l'.map (WireElement.shift d.length)) :=
  ⟨_, _, _, _, rfl, rfl, rfl, rfl, by decide⟩

end DbWireDecoder

end OpenRoad.Db
