import OpenRoad.DbWireCodec

/-!
The mask colors of a wire. The decoder holds the color and the via color that were set last: neither
the start of a wire nor that of a path clears them, so that a path starts without colors only if the
one before it has cleared its own.
-/

namespace OpenRoad.Db

open WireOp

/-- A mask color and a via color. -/
structure MaskColors where
  color : Option UInt8 := none
  viacolor : Option ViaColor := none
  deriving DecidableEq

namespace EncoderCall

/-- The colors after a call. A tech via clears the color; 0 represents no mask color. -/
def colors (m : MaskColors) : EncoderCall → MaskColors
  | .setColor maskColor => { m with color := some maskColor }
  | .clearColor | .addTechVia _ => { m with color := none }
  | .setViaColor bottomColor cutColor topColor => { m with
      viacolor :=
        if bottomColor = 0 ∧ cutColor = 0 ∧ topColor = 0 then none
        else some ⟨bottomColor, cutColor, topColor⟩ }
  | .clearViaColor => { m with viacolor := none }
  | _ => m

def isPathStart : EncoderCall → Bool
  | .newPath _ _ | .newPathRule _ _ _ | .newPathShort _ _ _ _ | .newPathVirtualWire _ _ _ _
  | .newPathFrom _ _ _ | .newPathExt _ _ _ _ => true
  | _ => false

/-- The calls that add no element. -/
def isColor : EncoderCall → Bool
  | .setColor _ | .clearColor | .setViaColor _ _ _ | .clearViaColor => true
  | _ => false

end EncoderCall

namespace DbWireEncoder

/-- The elements of the calls with the colors they have from `m` on; with `reset` a path starts
without colors. -/
def painted (tech : DbTech) (reset : Bool) (E : DbWireEncoder) (last : DbWireType) (m : MaskColors) :
    List EncoderCall → List (WireElement × MaskColors)
  | [] => []
  | call :: calls =>
      match E.perform tech call with
      | .error _ => []
      | .ok (E', id) =>
          let type := call.type?.getD last
          let m := if reset && call.isPathStart then {} else m
          (call.elements E' id type).map (fun e => (e.stored, m)) ++
            painted tech reset E' type (call.colors m) calls

/-- From the colors `m` on, every path starts when no color is set. -/
def startsClear (m : MaskColors) : List EncoderCall → Bool
  | [] => true
  | call :: calls => (!call.isPathStart || m == {}) && startsClear (call.colors m) calls

/-- An element before the first path start has the colors that it would have from `m'` on. -/
def firstClear (m m' : MaskColors) : List EncoderCall → Bool
  | [] => true
  | call :: calls =>
      if call.isColor then firstClear (call.colors m) (call.colors m') calls
      else call.isPathStart || m == m'

end DbWireEncoder

namespace DbWireDecoder

/-- `getColor` and `getViaColor` -/
def colors (D : DbWireDecoder) : MaskColors := ⟨D.color, D.viacolor⟩

/-- `begin` leaves the operands, the kind of the rule and the colors as they are. -/
def begin (D : DbWireDecoder) : DbWireDecoder :=
  { operand := D.operand
    operand2 := D.operand2
    blockRule := D.blockRule
    color := D.color
    viacolor := D.viacolor }

/-- A decoder that may have been used before reads a wire with its colors. -/
def decodeColors (tech : DbTech) (ops : List WireEntry) (D : DbWireDecoder) :
    Option (List (WireElement × MaskColors)) :=
  ((scanner tech ops).reading fun D => (D.element, D.colors)).collect (ops.length + 1) D.begin

/-! ### Passes -/

variable {tech : DbTech} {ops : List WireEntry} {D D' : DbWireDecoder}

/-- The colors stay, and no entry is read again. -/
structure Kept (D D' : DbWireDecoder) : Prop where
  colors : D'.colors = D.colors
  idx : D.idx ≤ D'.idx

theorem nextOp_cases {entry : WireEntry} (h : D.nextOp ops = some (entry, D')) :
    ops[D.idx]? = some entry ∧ D' = { D with idx := D.idx + 1 } := by
  unfold nextOp at h
  split at h
  · cases h
  · rename_i hentry
    cases h
    exact ⟨hentry, rfl⟩

theorem nextOp_kept {entry : WireEntry} (h : D.nextOp ops = some (entry, D')) : Kept D D' := by
  obtain ⟨-, rfl⟩ := nextOp_cases h
  exact ⟨rfl, Nat.le_succ _⟩

theorem readExtension_kept {opcode : UInt8} (h : D.readExtension ops opcode = some D') :
    Kept D D' := by
  unfold readExtension at h
  split at h
  · obtain ⟨⟨entry, D₁⟩, hnext, hD'⟩ := Option.bind_eq_some_iff.mp h
    have hkept := nextOp_kept hnext
    cases hD'
    exact ⟨hkept.colors, hkept.idx⟩
  · cases h
    exact ⟨rfl, Nat.le_refl _⟩

theorem flushRule_kept (ops : List WireEntry) (D : DbWireDecoder) : Kept D (D.flushRule ops) := by
  unfold flushRule
  split
  · exact ⟨rfl, Nat.le_refl _⟩
  · split
    · exact ⟨rfl, Nat.le_succ _⟩
    · exact ⟨rfl, Nat.le_refl _⟩

/-- A pass that returns leaves the colors as they are. -/
theorem decodeEntry_kept {opcode : UInt8} (h : D.decodeEntry tech ops opcode = some (.ret D')) :
    Kept D D' := by
  unfold decodeEntry at h
  split at h
  · cases h
    exact ⟨rfl, Nat.le_refl _⟩
  · obtain ⟨⟨entry, D₁⟩, hnext, hD'⟩ := Option.bind_eq_some_iff.mp h
    have hkept := nextOp_kept hnext
    cases hD'
    exact ⟨hkept.colors, hkept.idx⟩
  · obtain ⟨⟨entry, D₁⟩, hnext, hD'⟩ := Option.bind_eq_some_iff.mp h
    have hkept := nextOp_kept hnext
    cases hD'
    exact ⟨hkept.colors, hkept.idx⟩
  · split at h
    · cases h
    · obtain ⟨pnt, -, hD'⟩ := Option.bind_eq_some_iff.mp h
      cases hD'
      exact ⟨rfl, Nat.le_refl _⟩
  · cases h
    exact ⟨rfl, Nat.le_refl _⟩
  · dsimp only at h
    split at h
    · obtain ⟨⟨entry, D₁⟩, hnext, h⟩ := Option.bind_eq_some_iff.mp h
      obtain ⟨D₂, hext, hD'⟩ := Option.bind_eq_some_iff.mp h
      have hkept := nextOp_kept hnext
      have hkept₂ := readExtension_kept hext
      cases hD'
      exact ⟨hkept₂.colors.trans hkept.colors, Nat.le_trans hkept.idx hkept₂.idx⟩
    · obtain ⟨D₂, hext, hD'⟩ := Option.bind_eq_some_iff.mp h
      have hkept := readExtension_kept hext
      cases hD'
      have hflush := flushRule_kept ops { D₂ with property := 0 }
      exact ⟨hflush.colors.trans hkept.colors, Nat.le_trans hkept.idx hflush.idx⟩
  · split at h
    · cases h
    · obtain ⟨D₂, hext, hD'⟩ := Option.bind_eq_some_iff.mp h
      have hkept := readExtension_kept hext
      cases hD'
      have hflush := flushRule_kept ops { D₂ with property := 0 }
      exact ⟨hflush.colors.trans hkept.colors, Nat.le_trans hkept.idx hflush.idx⟩
  · dsimp only at h
    cases h
    have hflush := flushRule_kept ops { (if hasFlag opcode WOP_EXTENSION then
        { D with pointCnt := D.pointCnt + 1, operand2 := D.operand, opcode := .POINT_EXT }
      else { D with pointCnt := D.pointCnt + 1, opcode := .POINT } : DbWireDecoder) with
      property := 0 }
    refine ⟨hflush.colors.trans ?_, Nat.le_trans ?_ hflush.idx⟩
    · split <;> rfl
    · split <;> exact Nat.le_refl _
  · cases h
    exact ⟨rfl, Nat.le_refl _⟩
  · cases h
    exact ⟨rfl, Nat.le_refl _⟩
  · obtain ⟨⟨entry, D₁⟩, hnext, h⟩ := Option.bind_eq_some_iff.mp h
    obtain ⟨⟨entry₂, D₂⟩, hnext₂, h⟩ := Option.bind_eq_some_iff.mp h
    obtain ⟨⟨entry₃, D₃⟩, hnext₃, h⟩ := Option.bind_eq_some_iff.mp h
    have hkept := nextOp_kept hnext
    have hkept₂ := nextOp_kept hnext₂
    have hkept₃ := nextOp_kept hnext₃
    cases h
    exact ⟨hkept₃.colors.trans (hkept₂.colors.trans hkept.colors),
      Nat.le_trans hkept.idx (Nat.le_trans hkept₂.idx hkept₃.idx)⟩
  · cases h
    exact ⟨rfl, Nat.le_refl _⟩
  · cases h
    exact ⟨rfl, Nat.le_refl _⟩
  · cases h
  · cases h
  · cases h
  · cases h
  · cases h
  · cases h

/-- The colors after an entry that a pass reads first. -/
def entryColors (m : MaskColors) (entry : WireEntry) : MaskColors :=
  match WireOp.ofOpcode entry.1 with
  | some .WOP_COLOR =>
      let color := UInt8.ofInt entry.2
      { m with color := if color = 0 then none else some color }
  | some .WOP_VIACOLOR =>
      let viacolor := UInt8.ofInt entry.2
      { m with
        viacolor :=
          if viacolor = 0 then none
          else some ⟨(viacolor &&& 0x30) >>> 4, (viacolor &&& 0x0c) >>> 2, viacolor &&& 0x03⟩ }
  | _ => m

/-- A pass that goes on has read a property, an empty entry or a color. -/
theorem decodeEntry_goto {opcode : UInt8} (h : D.decodeEntry tech ops opcode = some (.goto D')) :
    D'.colors = entryColors D.colors (opcode, D.operand) ∧ D'.idx = D.idx := by
  have hret : ∀ {α : Type} {x : Option α} {f : α → DbWireDecoder},
      (x.bind fun a => some (Pass.ret (f a))) ≠ some (.goto D') := by
    intro α x f hx
    obtain ⟨a, -, ha⟩ := Option.bind_eq_some_iff.mp hx
    cases ha
  unfold decodeEntry at h
  unfold entryColors
  split at h <;> rename_i hop <;> dsimp only <;> rw [hop]
  · cases h
  · exact absurd h hret
  · exact absurd h hret
  · split at h
    · cases h
    · exact absurd h hret
  · cases h
  · dsimp only at h
    split at h
    · obtain ⟨⟨entry, D₁⟩, -, h⟩ := Option.bind_eq_some_iff.mp h
      exact absurd h hret
    · exact absurd h hret
  · split at h
    · cases h
    · exact absurd h hret
  · cases h
  · cases h
  · cases h
  · obtain ⟨⟨entry, D₁⟩, -, h⟩ := Option.bind_eq_some_iff.mp h
    obtain ⟨⟨entry₂, D₂⟩, -, h⟩ := Option.bind_eq_some_iff.mp h
    exact absurd h hret
  · cases h
  · cases h
  · cases h
    exact ⟨rfl, rfl⟩
  · cases h
    exact ⟨rfl, rfl⟩
  · cases h
    exact ⟨rfl, rfl⟩
  · cases h
    exact ⟨rfl, rfl⟩
  · cases h
  · cases h

/-- Entries that are no colors. -/
def Uncolored (entries : List WireEntry) : Prop := ∀ entry ∈ entries, ∀ m, entryColors m entry = m

theorem decodeEntry_ret_entry {opcode : UInt8} {value : Int}
    (h : D.decodeEntry tech ops opcode = some (.ret D')) (m : MaskColors) :
    entryColors m (opcode, value) = m := by
  unfold decodeEntry at h
  unfold entryColors
  split at h <;> rename_i hop <;> dsimp only <;> rw [hop] <;> cases h

/-- What a pass does to the colors: it reads an entry, and then nothing that is a color. -/
theorem pass_colors {p : Pass DbWireDecoder} (h : pass tech ops D = some p)
    (hp : p = .goto D' ∨ p = .ret D') :
    D.idx < D'.idx ∧ ∃ entry, ops[D.idx]? = some entry ∧ D'.colors = entryColors D.colors entry := by
  obtain ⟨⟨entry, D₁⟩, hnext, h⟩ := Option.bind_eq_some_iff.mp h
  obtain ⟨hentry, rfl⟩ := nextOp_cases hnext
  rcases hp with rfl | rfl
  · obtain ⟨hcolors, hidx⟩ := decodeEntry_goto h
    exact ⟨Nat.lt_of_lt_of_eq (Nat.lt_succ_self _) hidx.symm, entry, hentry, hcolors⟩
  · obtain ⟨hcolors, hidx⟩ := decodeEntry_kept h
    refine ⟨Nat.lt_of_succ_le hidx, entry, hentry, ?_⟩
    rw [decodeEntry_ret_entry h]
    exact hcolors

/-! ### Runs -/

theorem runs_idx_le {ts : List DbWireDecoder} (h : (scanner tech ops).Runs D ts D') :
    D.idx ≤ D'.idx := by
  induction h with
  | refl D => exact Nat.le_refl _
  | goto _ hleft _ ih =>
      change ops.length - _ < ops.length - _ at hleft
      omega
  | ret _ hleft _ ih =>
      change ops.length - _ < ops.length - _ at hleft
      omega

/-- Passes over entries that are no colors. -/
theorem runs_colors {ts : List DbWireDecoder} (h : (scanner tech ops).Runs D ts D')
    (hno : ∀ i entry, D.idx ≤ i → i < D'.idx → ops[i]? = some entry → ∀ m, entryColors m entry = m) :
    (∀ t ∈ ts, t.colors = D.colors) ∧ D'.colors = D.colors := by
  have hstep : ∀ {D t : DbWireDecoder} {p : Pass DbWireDecoder} {ts : List DbWireDecoder},
      pass tech ops D = some p → p = .goto t ∨ p = .ret t → ops.length - t.idx < ops.length - D.idx →
      (scanner tech ops).Runs t ts D' → (∀ i entry, D.idx ≤ i → i < D'.idx → ops[i]? = some entry →
        ∀ m, entryColors m entry = m) → t.colors = D.colors := by
    intro D t p ts hpass hp hleft hrest hno
    obtain ⟨-, entry, hentry, hcolors⟩ := pass_colors hpass hp
    have hle := runs_idx_le hrest
    rw [hcolors, hno D.idx entry (Nat.le_refl _) (by omega) hentry]
  induction h with
  | refl D => exact ⟨fun t ht => (List.not_mem_nil ht).elim, rfl⟩
  | goto hpass hleft hrest ih =>
      change ops.length - _ < ops.length - _ at hleft
      have hcolors := hstep hpass (Or.inl rfl) hleft hrest hno
      obtain ⟨hts, hend⟩ := ih (fun i entry hle => hno i entry (by omega)) hstep
      rw [hcolors] at hts hend
      exact ⟨hts, hend⟩
  | ret hpass hleft hrest ih =>
      change ops.length - _ < ops.length - _ at hleft
      have hcolors := hstep hpass (Or.inr rfl) hleft hrest hno
      obtain ⟨hts, hend⟩ := ih (fun i entry hle => hno i entry (by omega)) hstep
      rw [hcolors] at hts hend
      exact ⟨List.forall_mem_cons.mpr ⟨hcolors, hts⟩, hend⟩

/-- Passes over one entry that return nowhere. -/
theorem runs_one_colors (h : (scanner tech ops).Runs D [] D') (hidx : D'.idx = D.idx + 1)
    {entry : WireEntry} (hentry : ops[D.idx]? = some entry) :
    D'.colors = entryColors D.colors entry := by
  cases h with
  | refl => omega
  | goto hpass hleft hrest =>
      obtain ⟨-, entry', hentry', hcolors⟩ := pass_colors hpass (Or.inl rfl)
      cases hentry.symm.trans hentry'
      change ops.length - _ < ops.length - _ at hleft
      cases hrest with
      | refl => exact hcolors
      | goto _ hleft' hrest' =>
          have hle := runs_idx_le hrest'
          change ops.length - _ < ops.length - _ at hleft'
          omega

end DbWireDecoder

/-! ### Calls -/

namespace DbWireDecoder

open DbWireEncoder

variable {tech : DbTech} {ops rest : List WireEntry} {E E' : DbWireEncoder} {D : DbWireDecoder}
  {last : DbWireType}

theorem entryColors_of_op {entry : WireEntry} {op : WireOp} (h : WireOp.ofOpcode entry.1 = some op)
    (hcolor : op ≠ WOP_COLOR) (hviacolor : op ≠ WOP_VIACOLOR) (m : MaskColors) :
    entryColors m entry = m := by
  unfold entryColors
  rw [h]
  cases op <;> first | rfl | contradiction

theorem ofInt_toNat (v : UInt8) : UInt8.ofInt (v.toNat : Int) = v := by
  have hlt : v.toNat < 2 ^ 8 := v.toNat_lt
  have hmod : ((v.toNat : Int) % 2 ^ 8).toNat = v.toNat := by omega
  rw [UInt8.ofInt, hmod, UInt8.ofNat_toNat]

/-- Three colors of two bits each come back from the byte they are packed into. -/
theorem viacolor_bits : ∀ b c t : Fin 4,
    (if UInt8.ofNat b <<< 4 ||| UInt8.ofNat c <<< 2 ||| UInt8.ofNat t = 0 then none
      else some (ViaColor.mk
        (((UInt8.ofNat b <<< 4 ||| UInt8.ofNat c <<< 2 ||| UInt8.ofNat t) &&& 0x30) >>> 4)
        (((UInt8.ofNat b <<< 4 ||| UInt8.ofNat c <<< 2 ||| UInt8.ofNat t) &&& 0x0c) >>> 2)
        ((UInt8.ofNat b <<< 4 ||| UInt8.ofNat c <<< 2 ||| UInt8.ofNat t) &&& 0x03))) =
      if UInt8.ofNat b = 0 ∧ UInt8.ofNat c = 0 ∧ UInt8.ofNat t = 0 then none
      else some ⟨UInt8.ofNat b, UInt8.ofNat c, UInt8.ofNat t⟩ := by
  decide

theorem exists_bits {c : UInt8} (h : ¬3 < c) : ∃ b : Fin 4, c = UInt8.ofNat b := by
  have hlt : c.toNat < 4 := by
    have hle : ¬3 < c.toNat := fun hlt => h (UInt8.lt_iff_toNat_lt.mpr hlt)
    omega
  exact ⟨⟨c.toNat, hlt⟩, UInt8.ofNat_toNat.symm⟩

/-- The entry of a call that sets or clears colors. -/
theorem perform_color {call : EncoderCall} {id : Nat} (hcolor : call.isColor = true)
    (hcall : E.perform tech call = .ok (E', id)) :
    ∃ entry, E'.ops = E.ops ++ [entry] ∧ ∀ m, entryColors m entry = call.colors m := by
  cases call with
  | setColor maskColor =>
      have h := ok_of_void hcall
      unfold DbWireEncoder.setColor at h
      split at h
      · cases h
      · rename_i hrange
        obtain rfl := Except.ok.inj h
        refine ⟨_, rfl, fun m => ?_⟩
        have hne : maskColor ≠ 0 := by
          rintro rfl
          exact hrange (Or.inl (by decide))
        unfold entryColors
        rw [WireOp.ofOpcode_code]
        dsimp only
        rw [ofInt_toNat, if_neg hne]
        rfl
  | clearColor =>
      cases hcall
      exact ⟨_, rfl, fun m => rfl⟩
  | setViaColor bottomColor cutColor topColor =>
      have h := ok_of_void hcall
      unfold DbWireEncoder.setViaColor at h
      split at h
      · cases h
      · rename_i hfind
        obtain rfl := Except.ok.inj h
        refine ⟨_, rfl, fun m => ?_⟩
        rw [List.find?_eq_none] at hfind
        obtain ⟨b, rfl⟩ := exists_bits (c := bottomColor) (by simpa using hfind bottomColor (by simp))
        obtain ⟨c, rfl⟩ := exists_bits (c := cutColor) (by simpa using hfind cutColor (by simp))
        obtain ⟨t, rfl⟩ := exists_bits (c := topColor) (by simpa using hfind topColor (by simp))
        unfold entryColors
        rw [WireOp.ofOpcode_code]
        dsimp only
        rw [ofInt_toNat, viacolor_bits]
        rfl
  | clearViaColor =>
      cases hcall
      exact ⟨_, rfl, fun m => rfl⟩
  | _ => cases hcolor

/-- The entries of the other calls, but for tech vias, are no colors. -/
theorem perform_uncolored (hvalid : E.Valid last) {call : EncoderCall} {id : Nat}
    (hcolor : call.isColor = false) (hvia : ∀ via, call ≠ .addTechVia via)
    (hcall : E.perform tech call = .ok (E', id)) :
    ∃ entries, E'.ops = E.ops ++ entries ∧ Uncolored entries := by
  obtain ⟨entries, hops, hof⟩ := hvalid.perform_ops hcall
  refine ⟨entries, hops, fun entry hentry => ?_⟩
  obtain ⟨op, hop, hcode⟩ := hof entry hentry
  have hno : WOP_COLOR ∉ call.opcodes ∧ WOP_VIACOLOR ∉ call.opcodes := by
    cases call <;>
      first | (simp [EncoderCall.opcodes]; done) | exact absurd rfl (hvia _) | cases hcolor
  exact entryColors_of_op hcode (fun heq => hno.1 (heq ▸ hop)) fun heq => hno.2 (heq ▸ hop)

/-- An element of a call has the colors from before it. -/
theorem perform_colors (h : Follows E D) (hvalid : E.Valid last) {call : EncoderCall} {id : Nat}
    (hcall : E.perform tech call = .ok (E', id)) (hops : ops = E'.ops ++ rest) (hrest : NoRule rest) :
    ∃ ts D', (scanner tech ops).Runs D ts D' ∧
      ts.map element = (call.elements E' id (call.type?.getD last)).map WireElement.stored ∧
      Follows E' D' ∧ (∀ t ∈ ts, t.colors = D.colors) ∧ D'.colors = call.colors D.colors := by
  obtain ⟨D', ⟨ts, hruns, hread⟩, hfollow⟩ := h.perform tech hvalid hcall hops hrest
  refine ⟨ts, D', hruns, hread, hfollow, ?_⟩
  have hnth : ∀ {entries : List WireEntry}, E'.ops = E.ops ++ entries → ∀ i, D.idx ≤ i →
      i < D'.idx → ops[i]? = entries[i - E.idx]? := by
    intro entries hE i hle hlt
    rw [h.idx] at hle
    rw [hfollow.idx] at hlt
    have hlen : E'.idx = E.idx + entries.length := by
      rw [DbWireEncoder.idx, hE, List.length_append]
      rfl
    rw [hops, hE, List.append_assoc, List.getElem?_append_right hle, List.getElem?_append_left]
    · rfl
    · change i - E.idx < entries.length
      omega
  by_cases hcolor : call.isColor = true
  · obtain ⟨entry, hE, hentry⟩ := perform_color hcolor hcall
    have hnil : ts = [] := by
      have hnone : call.elements E' id (call.type?.getD last) = [] := by
        cases call <;> first | rfl | cases hcolor
      rw [hnone] at hread
      exact List.map_eq_nil_iff.mp hread
    have hidx : D'.idx = D.idx + 1 := by
      rw [hfollow.idx, h.idx, DbWireEncoder.idx, hE, List.length_append]
      rfl
    subst hnil
    refine ⟨fun t ht => (List.not_mem_nil ht).elim, ?_⟩
    rw [runs_one_colors hruns hidx, hentry]
    rw [hnth hE D.idx (Nat.le_refl _) (by omega), h.idx, Nat.sub_self]
    rfl
  · by_cases hvia : ∃ via, call = .addTechVia via
    · obtain ⟨via, rfl⟩ := hvia
      obtain ⟨-, -, hE'⟩ := addTechVia_cases hcall
      have hE : E'.ops = E.ops ++ [(viaOp WOP_TECH_VIA (tech.getTechVia via) E.layer, (via : Int)),
        (WOP_COLOR.code, 0)] := by rw [hE']
      have hidx : D'.idx = D.idx + 2 := by
        rw [hfollow.idx, h.idx, DbWireEncoder.idx, hE, List.length_append]
        rfl
      have hdrop := h.drop (by rw [hops, hE] : ops = (E.ops ++
        [(viaOp WOP_TECH_VIA (tech.getTechVia via) E.layer, (via : Int)), (WOP_COLOR.code, 0)]) ++ rest)
      obtain ⟨t, hpass, hidx₁, -⟩ := pass_techVia tech hdrop (ofOpcode_viaOp _ _ _)
      cases hruns with
      | refl => cases hread
      | goto hpass' _ _ => cases hpass.symm.trans hpass'
      | @ret _ t' _ ts' hpass' hleft hrest' =>
          cases hpass.symm.trans hpass'
          obtain ⟨-, entry, hentry, hcolors⟩ := pass_colors hpass (Or.inr rfl)
          have hnil : ts' = [] := by
            have hlen := congrArg List.length hread
            simp only [List.map_cons, List.length_cons, List.length_map, EncoderCall.elements,
              List.length_nil] at hlen
            exact List.eq_nil_of_length_eq_zero (by omega)
          subst hnil
          have hsame : t.colors = D.colors := by
            rw [hnth hE D.idx (Nat.le_refl _) (by omega), h.idx, Nat.sub_self] at hentry
            cases hentry
            rw [hcolors]
            exact entryColors_of_op (ofOpcode_viaOp _ _ _) (by decide) (by decide) _
          refine ⟨List.forall_mem_singleton.mpr hsame, ?_⟩
          have hcolor₀ : ops[t.idx]? = some (WOP_COLOR.code, 0) := by
            rw [hnth hE t.idx (by omega) (by omega), hidx₁, h.idx, Nat.add_sub_cancel_left]
            rfl
          rw [runs_one_colors hrest' (by omega) hcolor₀, hsame]
          rfl
    · obtain ⟨entries, hE, hentries⟩ := perform_uncolored hvalid (Bool.eq_false_iff.mpr hcolor)
        (fun via heq => hvia ⟨via, heq⟩) hcall
      obtain ⟨hts, hend⟩ := runs_colors hruns fun i entry hle hlt hentry =>
        hentries entry (List.mem_of_getElem? ((hnth hE i hle hlt) ▸ hentry))
      refine ⟨hts, hend.trans ?_⟩
      cases call <;> first | rfl | exact absurd rfl hcolor | exact absurd ⟨_, rfl⟩ hvia

/-- The decoder reads every element with the colors that are left from before. -/
theorem performAll_painted (h : Follows E D) (hvalid : E.Valid last) {calls : List EncoderCall}
    {elements : List WireElement} (hcalls : E.performAll tech last calls = .ok (E', elements)) :
    ((scanner tech E'.ops).reading fun D => (D.element, D.colors)).Scans D
      (painted tech false E last D.colors calls) := by
  induction calls generalizing E D last elements with
  | nil =>
      cases hcalls
      apply Scanner.Scans.nil
      change E'.ops.length - D.idx = 0
      rw [h.idx]
      exact Nat.sub_self _
  | cons call calls ih =>
      obtain ⟨E₁, id, rest, hcall, hrest, -⟩ := performAll_cons hcalls
      obtain ⟨-, -, -, hvalid₁⟩ := hvalid.perform hcall
      obtain ⟨more, hmore, hnoRule⟩ := hvalid₁.performAll hrest
      obtain ⟨ts, D₁, hruns, hread, hfollow, hts, hcolors⟩ :=
        perform_colors h hvalid hcall hmore hnoRule
      have hscan := (hruns.reading fun D => (D.element, D.colors)).scans (ih hfollow hvalid₁ hrest)
      have hmap : ts.map (fun D => (D.element, D.colors)) =
          (call.elements E₁ id (call.type?.getD last)).map (fun e => (e.stored, D.colors)) := calc
        ts.map (fun D => (D.element, D.colors)) = ts.map (fun t => (t.element, D.colors)) :=
          List.map_congr_left fun t ht => by rw [hts t ht]
        _ = (ts.map element).map (fun e => (e, D.colors)) := by rw [List.map_map]; rfl
        _ = _ := by rw [hread, List.map_map]; rfl
      rw [painted, hcall]
      dsimp only
      rw [Bool.false_and, if_neg (by decide), ← hcolors, ← hmap]
      exact hscan

end DbWireDecoder

namespace DbWireEncoder

variable {tech : DbTech} {E E' : DbWireEncoder} {last : DbWireType}

theorem elements_ne_nil {call : EncoderCall} (h : call.isColor = false) (E : DbWireEncoder) (id : Nat)
    (type : DbWireType) : call.elements E id type ≠ [] := by
  cases call <;> first | exact List.cons_ne_nil _ _ | cases h

/-- From the same colors on, paths that start without colors are all that is asked for. -/
theorem painted_same (m : MaskColors) {calls : List EncoderCall} {elements : List WireElement}
    (hcalls : E.performAll tech last calls = .ok (E', elements)) :
    painted tech false E last m calls = painted tech true E last m calls ↔
      startsClear m calls = true := by
  induction calls generalizing E last elements m with
  | nil => exact iff_of_true rfl rfl
  | cons call calls ih =>
      obtain ⟨E₁, id, rest, hcall, hrest, -⟩ := performAll_cons hcalls
      rw [painted, painted, hcall, startsClear]
      dsimp only
      rw [Bool.false_and, if_neg (by decide), Bool.true_and]
      by_cases hstart : call.isPathStart = true
      · rw [if_pos hstart, hstart, Bool.not_true, Bool.false_or, Bool.and_eq_true, beq_iff_eq]
        by_cases hm : m = {}
        · subst hm
          rw [List.append_cancel_left_eq, ih _ hrest]
          exact ⟨fun h => ⟨rfl, h⟩, fun h => h.2⟩
        · refine iff_of_false (fun heq => ?_) fun h => hm h.1
          have hcolor : call.isColor = false := by cases call <;> first | rfl | cases hstart
          obtain ⟨e, es, helem⟩ := List.exists_cons_of_ne_nil
            (elements_ne_nil hcolor E₁ id (call.type?.getD last))
          rw [helem] at heq
          exact hm (Prod.mk.inj (List.cons.inj heq).1).2
      · have hno : call.isPathStart = false := Bool.eq_false_iff.mpr hstart
        rw [if_neg hstart, List.append_cancel_left_eq, ih _ hrest, hno]
        simp

/-- From other colors on, it is asked for as well that an element before the first path start has
the same ones. -/
theorem painted_iff (m m' : MaskColors) {calls : List EncoderCall} {elements : List WireElement}
    (hcalls : E.performAll tech last calls = .ok (E', elements)) :
    painted tech false E last m calls = painted tech true E last m' calls ↔
      startsClear m calls = true ∧ firstClear m m' calls = true := by
  induction calls generalizing E last elements m m' with
  | nil => exact iff_of_true rfl ⟨rfl, rfl⟩
  | cons call calls ih =>
      obtain ⟨E₁, id, rest, hcall, hrest, -⟩ := performAll_cons hcalls
      have hsame := painted_same m hcalls
      by_cases hcolor : call.isColor = true
      · have hstart : call.isPathStart = false := by cases call <;> first | rfl | cases hcolor
        have hnil : call.elements E₁ id (call.type?.getD last) = [] := by
          cases call <;> first | rfl | cases hcolor
        rw [painted, painted, hcall, startsClear, firstClear]
        dsimp only
        rw [hnil, hstart, if_pos hcolor, Bool.and_false, Bool.and_false, if_neg (by decide),
          if_neg (by decide), List.map_nil, List.map_nil, List.nil_append, List.nil_append, ih _ _ hrest]
        simp
      · rw [firstClear, if_neg hcolor]
        by_cases hstart : call.isPathStart = true
        · have hreset : painted tech true E last m' (call :: calls) =
              painted tech true E last m (call :: calls) := by
            rw [painted, painted, hcall, hstart]
            rfl
          rw [hreset, hsame, hstart]
          simp
        · by_cases hm : m = m'
          · rw [← hm, hsame]
            simp
          · refine iff_of_false (fun heq => ?_) fun h => ?_
            · obtain ⟨e, es, helem⟩ := List.exists_cons_of_ne_nil
                (elements_ne_nil (Bool.eq_false_iff.mpr hcolor) E₁ id (call.type?.getD last))
              rw [painted, painted, hcall] at heq
              dsimp only at heq
              rw [helem, Bool.eq_false_iff.mpr hstart, Bool.and_false, Bool.and_false,
                if_neg (by decide), if_neg (by decide)] at heq
              exact hm (Prod.mk.inj (List.cons.inj heq).1).2
            · have hor := h.2
              rw [Bool.or_eq_true, beq_iff_eq] at hor
              exact hor.elim hstart hm

end DbWireEncoder

namespace DbWireDecoder

open DbWireEncoder

/-- Whatever was decoded before, every element has the colors set in its own path, exactly when no
path starts while colors are set and no color from before reaches an element without a path. -/
theorem decodeColors_encode_iff (tech : DbTech) (E : DbWireEncoder) (last : DbWireType)
    (hlast : E.wireType = getWireType last) (wire : List WireEntry) (calls : List EncoderCall)
    (hcalls : calls = [] → wire = []) {wire' : List WireEntry} {elements : List WireElement}
    (hencode : E.encode tech last wire calls = .ok (wire', elements)) (D : DbWireDecoder) :
    decodeColors tech wire' D = some (painted tech true E.begin last {} calls) ↔
      startsClear D.colors calls = true ∧ firstClear D.colors {} calls = true := by
  obtain ⟨E', hall, rfl⟩ := encode_cases hlast hcalls hencode
  have hfollow : Follows E.begin D.begin := ⟨rfl, fun hne => absurd rfl hne, Iff.rfl⟩
  have hscan := performAll_painted hfollow (Valid.begin hlast) hall
  have hread : decodeColors tech E'.ops D = some (painted tech false E.begin last D.colors calls) :=
    hscan.collect (Nat.lt_succ_self _)
  rw [hread, Option.some_inj]
  exact painted_iff D.colors {} hall

/-- A path whose colors are cleared at its end, and another one. -/
def clearedPath : List EncoderCall :=
  [.newPath 1 .ROUTED, .addPoint 0 0 0, .setColor 2, .addPoint 10 0 0, .clearColor,
    .newPath 2 .ROUTED, .addPoint 0 0 0, .setViaColor 1 2 3, .addVia 1]

theorem decodeColors_encode_iff_cleared : ∃ wire elements,
    ({} : DbWireEncoder).encode twoLayers .NONE [] clearedPath = .ok (wire, elements) ∧
    decodeColors twoLayers wire {} =
      some (painted twoLayers true ({} : DbWireEncoder).begin .NONE {} clearedPath) :=
  ⟨_, _, rfl, (decodeColors_encode_iff twoLayers {} .NONE rfl [] clearedPath (by decide) rfl {}).mpr
    (by decide)⟩

/-- A path that is left with a color, and another one that sets none. -/
def coloredPath : List EncoderCall :=
  [.newPath 1 .ROUTED, .addPoint 0 0 0, .setColor 2, .addPoint 10 0 0, .newPath 1 .ROUTED,
    .addPoint 0 5 0]

/-- The color of the first path shows in the second, and when the wire is decoded again. -/
theorem not_decodeColors_encode : ∃ wire elements,
    ({} : DbWireEncoder).encode twoLayers .NONE [] coloredPath = .ok (wire, elements) ∧
    decodeColors twoLayers wire {} ≠
      some (painted twoLayers true ({} : DbWireEncoder).begin .NONE {} coloredPath) ∧
    decodeColors twoLayers wire { color := some 2 } ≠ decodeColors twoLayers wire {} :=
  ⟨_, _, rfl, by decide, by decide⟩

end DbWireDecoder

end OpenRoad.Db
