import OpenRoad.MplPacking
import OpenRoad.MplPerturb

/-!
A perturbation that is rejected. The sequences, the penalties and the shapes of hard macros are
restored. The shape of a soft macro is restored from the saved macros, which the measure of the
notches saves once more after the macro has been resized.
-/

namespace OpenRoad.Mpl

open Macro SimulatedAnnealingCore

/-! ### What a floorplan depends on -/

section Core

variable {T β : Type}

theorem packAxis_same {f : T → β} {pos : Nat → Nat} {set : T → ℚ → T} {start size : T → ℚ}
    (hf : ∀ m v, f (set m v) = f m) (seq : List Nat) (st : (Nat → T) × List ℚ) (id : Nat) :
    f ((seq.foldl (packMacro pos set start size) st).1 id) = f (st.1 id) := by
  induction seq generalizing st with
  | nil => rfl
  | cons b seq ih =>
      rw [List.foldl_cons, ih]
      change f (Function.update st.1 b _ id) = _
      by_cases hid : id = b
      · rw [hid, Function.update_self]
        exact hf _ _
      · rw [Function.update_of_ne hid]

theorem packAxis_others {pos : Nat → Nat} {set : T → ℚ → T} {start size : T → ℚ} {seq : List Nat}
    {id : Nat} (hid : id ∉ seq) (st : (Nat → T) × List ℚ) :
    (seq.foldl (packMacro pos set start size) st).1 id = st.1 id := by
  induction seq generalizing st with
  | nil => rfl
  | cons b seq ih =>
      rw [List.mem_cons, not_or] at hid
      rw [List.foldl_cons, ih hid.2]
      exact Function.update_of_ne hid.1 _ _

variable [Macro T] [LawfulMacro T]

/-- Packing keeps what does not depend on the location. -/
theorem packFloorplan_same {f : T → β} (hx : ∀ m v, f (setX m v) = f m) (hy : ∀ m v, f (setY m v) = f m)
    (sa : SimulatedAnnealingCore T) (id : Nat) : f (sa.packFloorplan.macros id) = f (sa.macros id) := by
  unfold packFloorplan packAxis
  dsimp only
  rw [packAxis_same hy, packAxis_same hx, toOrigin_same hx hy]

theorem packFloorplan_others (sa : SimulatedAnnealingCore T) {id : Nat} (hid : id ∉ sa.posSeq) :
    sa.packFloorplan.macros id = sa.macros id := by
  unfold packFloorplan packAxis
  dsimp only
  rw [packAxis_others (fun h => hid (List.mem_reverse.mp h)), packAxis_others hid]
  change toOrigin sa.posSeq sa.macros id = _
  rw [toOrigin_eq, if_neg hid]

/-- The macros of the sequence are the same up to their location, and the others are the same. -/
def SameMacros (seq : List Nat) (macros macros' : Nat → T) : Prop :=
  ∀ id, if id ∈ seq then atOrigin (macros id) = atOrigin (macros' id) else macros id = macros' id

theorem SameMacros.toOrigin {seq : List Nat} {macros macros' : Nat → T}
    (h : SameMacros seq macros macros') : toOrigin seq macros = toOrigin seq macros' := by
  funext id
  have hid := h id
  rw [toOrigin_eq, toOrigin_eq]
  split at hid
  · rw [if_pos ‹_›, if_pos ‹_›, hid]
  · rw [if_neg ‹_›, if_neg ‹_›, hid]

omit [LawfulMacro T] in
/-- What does not depend on the location is the same. -/
theorem SameMacros.same {seq : List Nat} {macros macros' : Nat → T} {f : T → β}
    (hx : ∀ m v, f (setX m v) = f m) (hy : ∀ m v, f (setY m v) = f m)
    (h : SameMacros seq macros macros') (id : Nat) : f (macros id) = f (macros' id) := by
  have hid := h id
  have horigin : ∀ m : T, f (atOrigin m) = f m := fun m => (hy _ _).trans (hx _ _)
  split at hid
  · rw [← horigin (macros id), hid, horigin]
  · rw [hid]

theorem packFloorplan_sameMacros {seq : List Nat} (sa : SimulatedAnnealingCore T)
    (hseq : ∀ id, id ∈ sa.posSeq → id ∈ seq) : SameMacros seq sa.packFloorplan.macros sa.macros := by
  intro id
  split
  · refine packFloorplan_same (fun m v => ?_) (fun m v => ?_) sa id <;> simp [atOrigin]
  · exact packFloorplan_others sa fun h => ‹id ∉ seq› (hseq id h)

/-- The floorplan depends on the sequences and the macros up to their location. -/
theorem packFloorplan_congr {sa sa' : SimulatedAnnealingCore T} (hpos : sa.posSeq = sa'.posSeq)
    (hneg : sa.negSeq = sa'.negSeq) (hmacros : SameMacros sa.posSeq sa.macros sa'.macros) :
    sa.packFloorplan.macros = sa'.packFloorplan.macros ∧
      sa.packFloorplan.width = sa'.packFloorplan.width ∧
      sa.packFloorplan.height = sa'.packFloorplan.height := by
  have horigin := hmacros.toOrigin
  unfold packFloorplan
  dsimp only
  rw [horigin, hpos, hneg]
  exact ⟨rfl, rfl, rfl⟩

end Core

/-! ### Actions -/

section Action

variable {T : Type}

theorem mem_swap {seq : List Nat} {i j id : Nat} (h : id ∈ swap seq i j) : id ∈ seq := by
  unfold swap at h
  split at h
  · rcases List.mem_or_eq_of_mem_set h with h | rfl
    · rcases List.mem_or_eq_of_mem_set h with h | rfl
      · exact h
      · exact List.mem_of_getElem? ‹_›
    · exact List.mem_of_getElem? ‹_›
  · exact h

/-- The action is the one that is not about the sequence pair. -/
def takesFifth (P : Setup) (c : Choice) : Bool :=
  P.posSwapProb < c.op && P.posSwapProb + P.negSwapProb < c.op &&
    P.posSwapProb + P.negSwapProb + P.doubleSwapProb < c.op &&
    P.posSwapProb + P.negSwapProb + P.doubleSwapProb + P.exchangeProb < c.op

/-- What an action on the sequence pair does: the first leaves the negative sequence, and the second
the positive one. -/
structure Swapped (sa sa' : SimulatedAnnealingCore T) : Prop where
  eq : sa' = { sa with posSeq := sa'.posSeq, negSeq := sa'.negSeq, actionId := sa'.actionId }
  action : sa'.actionId ≠ 5
  first : sa'.actionId = 1 → sa'.negSeq = sa.negSeq
  second : sa'.actionId = 2 → sa'.posSeq = sa.posSeq
  mem : ∀ id, id ∈ sa'.posSeq → id ∈ sa.posSeq

theorem act_cases {P : Setup} {c : Choice} {sa sa' : SimulatedAnnealingCore T}
    {fifth : SimulatedAnnealingCore T → Option (SimulatedAnnealingCore T)}
    (h : act P c sa fifth = some sa') :
    takesFifth P c = false ∧ Swapped sa sa' ∨
      takesFifth P c = true ∧ fifth { sa with actionId := 5, preMacros := sa.macros } = some sa' := by
  unfold act at h
  dsimp only at h
  unfold takesFifth
  by_cases h1 : c.op ≤ P.posSwapProb
  · rw [if_pos h1] at h
    refine Or.inl ⟨by simp [not_lt.mpr h1], ?_⟩
    obtain rfl := Option.some.inj h
    unfold singleSeqSwap
    split
    · exact ⟨rfl, by simp, fun _ => rfl, fun _ => rfl, fun id hid => hid⟩
    · exact ⟨rfl, by simp, fun _ => rfl, by simp, fun id hid => mem_swap hid⟩
  rw [if_neg h1] at h
  by_cases h2 : c.op ≤ P.posSwapProb + P.negSwapProb
  · rw [if_pos h2] at h
    refine Or.inl ⟨by simp [not_lt.mpr h2], ?_⟩
    obtain rfl := Option.some.inj h
    unfold singleSeqSwap
    split
    · exact ⟨rfl, by simp, fun _ => rfl, fun _ => rfl, fun id hid => hid⟩
    · exact ⟨rfl, by simp, by simp, fun _ => rfl, fun id hid => hid⟩
  rw [if_neg h2] at h
  by_cases h3 : c.op ≤ P.posSwapProb + P.negSwapProb + P.doubleSwapProb
  · rw [if_pos h3] at h
    refine Or.inl ⟨by simp [not_lt.mpr h3], ?_⟩
    obtain rfl := Option.some.inj h
    unfold doubleSeqSwap
    split
    · exact ⟨rfl, by simp, fun _ => rfl, fun _ => rfl, fun id hid => hid⟩
    · exact ⟨rfl, by simp, by simp, by simp, fun id hid => mem_swap hid⟩
  rw [if_neg h3] at h
  by_cases h4 : c.op ≤ P.posSwapProb + P.negSwapProb + P.doubleSwapProb + P.exchangeProb
  · rw [if_pos h4] at h
    refine Or.inl ⟨by simp [not_lt.mpr h4], ?_⟩
    unfold exchangeMacros at h
    split at h
    · obtain rfl := Option.some.inj h
      exact ⟨rfl, by simp, fun _ => rfl, fun _ => rfl, fun id hid => hid⟩
    · dsimp only at h
      split at h
      · obtain rfl := Option.some.inj h
        exact ⟨rfl, by simp, by simp, by simp, fun id hid => mem_swap hid⟩
      · cases h
  · rw [if_neg h4] at h
    refine Or.inr ⟨?_, h⟩
    simp [not_le.mp h1, not_le.mp h2, not_le.mp h3, not_le.mp h4]

/-- What floorplans are compared by. -/
structure Measures where
  width : ℚ
  height : ℚ
  outlinePenalty : ℚ
  wirelength : ℚ
  guidancePenalty : ℚ
  fencePenalty : ℚ
  deriving DecidableEq

def measures (sa : SimulatedAnnealingCore T) : Measures :=
  ⟨sa.width, sa.height, sa.outlinePenalty, sa.wirelength, sa.guidancePenalty, sa.fencePenalty⟩

/-- The solution `sa` has been saved, but for the macros, and what the last action left is there. -/
structure Saved (sa sa' : SimulatedAnnealingCore T) : Prop where
  posSeq : sa'.prePosSeq = sa.posSeq
  negSeq : sa'.preNegSeq = sa.negSeq
  measures : (⟨sa'.preWidth, sa'.preHeight, sa'.preOutlinePenalty, sa'.preWirelength,
    sa'.preGuidancePenalty, sa'.preFencePenalty⟩ : Measures) = measures sa
  size : sa'.size = sa.size
  keepsPos : sa'.actionId = 5 ∨ sa'.actionId = 2 → sa'.posSeq = sa.posSeq
  keepsNeg : sa'.actionId = 5 ∨ sa'.actionId = 1 → sa'.negSeq = sa.negSeq

theorem Swapped.saved {sa sa' : SimulatedAnnealingCore T} (h : Swapped (backUp sa) sa') : Saved sa sa' where
  posSeq := congrArg prePosSeq h.eq
  negSeq := congrArg preNegSeq h.eq
  measures := by
    rw [h.eq]
    rfl
  size := (congrArg SimulatedAnnealingCore.size h.eq).trans rfl
  keepsPos haction := h.second (haction.resolve_left h.action)
  keepsNeg haction := h.first (haction.resolve_left h.action)

variable [Macro T]

theorem Saved.evaluated {sa sa' : SimulatedAnnealingCore T} (h : Saved sa sa') (P : Setup) :
    Saved sa (sa'.packFloorplan.calPenalty P) :=
  ⟨h.posSeq, h.negSeq, h.measures, h.size, h.keepsPos, h.keepsNeg⟩

omit [Macro T] in
theorem Saved.restored {sa sa' : SimulatedAnnealingCore T} (h : Saved sa sa') (macros : Nat → T) :
    (restoreWith sa' macros).posSeq = sa.posSeq ∧ (restoreWith sa' macros).negSeq = sa.negSeq ∧
      Mpl.measures (restoreWith sa' macros) = Mpl.measures sa := by
  refine ⟨?_, ?_, h.measures⟩
  · unfold restoreWith
    dsimp only
    split
    · exact h.keepsPos ‹_›
    · exact h.posSeq
  · unfold restoreWith
    dsimp only
    split
    · exact h.keepsNeg ‹_›
    · exact h.negSeq

variable [LawfulMacro T]

/-- What a floorplan is compared by depends on the sequences and on the macros up to their location. -/
theorem evaluated_congr (P : Setup) {sa sa' : SimulatedAnnealingCore T} (hpos : sa.posSeq = sa'.posSeq)
    (hneg : sa.negSeq = sa'.negSeq) (hmacros : SameMacros sa.posSeq sa.macros sa'.macros) :
    Mpl.measures (sa.packFloorplan.calPenalty P) = Mpl.measures (sa'.packFloorplan.calPenalty P) := by
  obtain ⟨hm, hw, hh⟩ := packFloorplan_congr hpos hneg hmacros
  unfold Mpl.measures calPenalty
  dsimp only
  rw [hm, hw, hh]

end Action

/-! ### Hard macros -/

section Hard

open SACoreHardMacro

/-- The width, the height, the orientation and the pin offsets. -/
def shapeOf (m : HardMacro) : ℚ × ℚ × Db.Orient × ℚ × ℚ := (m.width, m.height, m.orientation, m.pinX, m.pinY)

theorem shapeOf_setX (m : HardMacro) (v : ℚ) : shapeOf (setX m v) = shapeOf m := by
  change shapeOf (m.setX v) = _
  unfold HardMacro.setX
  split <;> rfl

theorem shapeOf_setY (m : HardMacro) (v : ℚ) : shapeOf (setY m v) = shapeOf m := by
  change shapeOf (m.setY v) = _
  unfold HardMacro.setY
  split <;> rfl

/-- The sequences, the shapes of the macros and the penalties are those of `sa`. -/
structure HardRestored (sa sa' : SimulatedAnnealingCore HardMacro) : Prop where
  posSeq : sa'.posSeq = sa.posSeq
  negSeq : sa'.negSeq = sa.negSeq
  shape : ∀ id, shapeOf (sa'.macros id) = shapeOf (sa.macros id)
  measures : measures sa' = measures sa

/-- Packing the floorplan again and calculating its penalties gives those that it has. -/
def HardEvaluated (P : Setup) (sa : SimulatedAnnealingCore HardMacro) : Prop :=
  measures (sa.packFloorplan.calPenalty P) = measures sa

theorem flipAllMacros_saved {sa sa' : SimulatedAnnealingCore HardMacro} {macros : Nat → HardMacro}
    (h : some (flipAllMacros { backUp sa with actionId := 5, preMacros := macros }) = some sa') :
    Saved sa sa' ∧ sa'.actionId = 5 ∧ sa'.preMacros = macros := by
  obtain rfl := Option.some.inj h
  exact ⟨⟨rfl, rfl, rfl, rfl, fun _ => rfl, fun _ => rfl⟩, rfl, rfl⟩

/-- The macros that a rejected perturbation leaves differ at most in their location. -/
theorem hard_sameMacros (P : Setup) {c : Choice} {sa sa₁ : SimulatedAnnealingCore HardMacro}
    (h : act P c (backUp sa) (fun sa => some (flipAllMacros sa)) = some sa₁) :
    Saved sa sa₁ ∧ SameMacros sa.posSeq
      (restoreWith (sa₁.packFloorplan.calPenalty P) sa₁.preMacros).macros sa.macros := by
  rcases act_cases h with ⟨-, hswap⟩ | ⟨-, hflip⟩
  · have hmacros : sa₁.macros = sa.macros := (congrArg SimulatedAnnealingCore.macros hswap.eq).trans rfl
    have hkeep : (restoreWith (sa₁.packFloorplan.calPenalty P) sa₁.preMacros).macros =
        sa₁.packFloorplan.macros := if_neg hswap.action
    refine ⟨hswap.saved, ?_⟩
    rw [hkeep, ← hmacros]
    exact packFloorplan_sameMacros sa₁ hswap.mem
  · obtain ⟨hsaved, haction, hpre⟩ := flipAllMacros_saved hflip
    have hback : (restoreWith (sa₁.packFloorplan.calPenalty P) sa₁.preMacros).macros = sa.macros :=
      (if_pos haction).trans hpre
    refine ⟨hsaved, fun id => ?_⟩
    rw [hback]
    split <;> rfl

theorem hard_restored (P : Setup) {c : Choice} {sa sa' : SimulatedAnnealingCore HardMacro}
    (h : SACoreHardMacro.perturb P sa c = some sa') :
    HardRestored sa (SACoreHardMacro.restore sa') ∧
      (HardEvaluated P (SACoreHardMacro.restore sa') ↔ HardEvaluated P sa) := by
  unfold SACoreHardMacro.perturb at h
  unfold SACoreHardMacro.restore
  by_cases hsize : sa.size = 0
  · rw [if_pos hsize] at h
    obtain rfl := Option.some.inj h
    rw [if_pos hsize]
    exact ⟨⟨rfl, rfl, fun id => rfl, rfl⟩, Iff.rfl⟩
  · rw [if_neg hsize] at h
    obtain ⟨sa₁, hact, rfl⟩ := Option.map_eq_some_iff.mp h
    obtain ⟨hsaved, hmacros⟩ := hard_sameMacros P hact
    have hsize' : (sa₁.packFloorplan.calPenalty P).size ≠ 0 := hsaved.size ▸ hsize
    rw [if_neg hsize']
    obtain ⟨hpos, hneg, hmeasures⟩ := (hsaved.evaluated P).restored sa₁.preMacros
    refine ⟨⟨hpos, hneg, hmacros.same shapeOf_setX shapeOf_setY, hmeasures⟩, ?_⟩
    have hcongr := evaluated_congr P hpos hneg (hpos ▸ hmacros)
    unfold HardEvaluated
    rw [← hmeasures, ← hcongr]
    rfl

end Hard

/-! ### Soft macros -/

section Soft

open SACoreSoftMacro

variable {P : SoftSetup}

/-- The width, the height and the area. -/
def softShape (m : SoftMacro) : ℚ × ℚ × ℚ := (m.width, m.height, m.area)

theorem softShape_setX (m : SoftMacro) (v : ℚ) : softShape (setX m v) = softShape m := by
  change softShape (m.setX v) = _
  unfold SoftMacro.setX
  split <;> rfl

theorem softShape_setY (m : SoftMacro) (v : ℚ) : softShape (setY m v) = softShape m := by
  change softShape (m.setY v) = _
  unfold SoftMacro.setY
  split <;> rfl

/-- A macro that is resized differs at most in its shape. -/
theorem resized_eq (c : Choice) (posSeq : List Nat) (macros : Nat → SoftMacro) :
    ∃ width height area, resized P c posSeq macros = { macros c.idx with width, height, area } := by
  have hrandom : ∀ m : SoftMacro, ∃ width height area,
      m.resizeRandomly c.interval c.draw = { m with width, height, area } := by
    intro m
    unfold SoftMacro.resizeRandomly
    split <;> exact ⟨_, _, _, rfl⟩
  have hwidth : ∀ (m : SoftMacro) v, ∃ width height area,
      m.setWidth v = { m with width, height, area } := by
    intro m v
    unfold SoftMacro.setWidth
    split
    · exact ⟨_, _, _, rfl⟩
    split
    · split
      · exact ⟨_, _, _, rfl⟩
      split <;> exact ⟨_, _, _, rfl⟩
    · exact ⟨_, _, _, rfl⟩
  have hheight : ∀ (m : SoftMacro) v, ∃ width height area,
      m.setHeight v = { m with width, height, area } := by
    intro m v
    unfold SoftMacro.setHeight
    split
    · exact ⟨_, _, _, rfl⟩
    split
    · split
      · exact ⟨_, _, _, rfl⟩
      split <;> exact ⟨_, _, _, rfl⟩
    · exact ⟨_, _, _, rfl⟩
  unfold resized
  dsimp only
  split_ifs
  · exact hrandom _
  · exact hrandom _
  · exact hrandom _
  · exact hwidth _ _
  · exact ⟨_, _, _, rfl⟩
  · exact hwidth _ _
  · exact hheight _ _
  · exact ⟨_, _, _, rfl⟩
  · exact hheight _ _

theorem resized_of_shape {c : Choice} {posSeq : List Nat} {macros : Nat → SoftMacro}
    (h : softShape (resized P c posSeq macros) = softShape (macros c.idx)) :
    resized P c posSeq macros = macros c.idx := by
  obtain ⟨width, height, area, heq⟩ := resized_eq (P := P) c posSeq macros
  rw [heq] at h ⊢
  obtain ⟨rfl, hrest⟩ := Prod.mk.inj h
  obtain ⟨rfl, rfl⟩ := Prod.mk.inj hrest
  rfl

/-- The measure of the notches saves the macros. -/
def savesMacros (P : SoftSetup) (width height : ℚ) : Bool :=
  0 < P.notchWeight && !exceedsOutline P width height

theorem calNotchPenalty_eq (sa : SACoreSoftMacro) : calNotchPenalty P sa = { sa with
    preMacros := if savesMacros P sa.width sa.height then sa.macros else sa.preMacros
    notchPenalty := (calNotchPenalty P sa).notchPenalty } := by
  unfold calNotchPenalty savesMacros
  dsimp only
  by_cases hweight : P.notchWeight ≤ 0
  · simp [hweight, not_lt.mpr hweight]
  · by_cases hexceeds : exceedsOutline P sa.width sa.height = true
    · simp [hweight, hexceeds]
    · simp [hweight, hexceeds, not_le.mp hweight]

theorem notchPenalty_congr {sa sa' : SACoreSoftMacro} (hpos : sa.posSeq = sa'.posSeq)
    (hsize : sa.size = sa'.size) (hwidth : sa.width = sa'.width) (hheight : sa.height = sa'.height)
    (hmacros : sa.macros = sa'.macros) :
    (calNotchPenalty P sa).notchPenalty = (calNotchPenalty P sa').notchPenalty := by
  unfold calNotchPenalty measuredNotches
  rw [hpos, hsize, hwidth, hheight, hmacros]
  split
  · rfl
  split <;> rfl

/-- What floorplans of soft macros are compared by. -/
def softMeasures (sa : SACoreSoftMacro) : Measures × ℚ × ℚ × ℚ :=
  (measures sa.toSimulatedAnnealingCore, sa.boundaryPenalty, sa.macroBlockagePenalty, sa.notchPenalty)

theorem softMeasures_calNotchPenalty (sa : SACoreSoftMacro) : softMeasures (calNotchPenalty P sa) =
    (measures sa.toSimulatedAnnealingCore, sa.boundaryPenalty, sa.macroBlockagePenalty,
      (calNotchPenalty P sa).notchPenalty) := by
  unfold calNotchPenalty
  dsimp only
  split
  · rfl
  split <;> rfl

theorem softMeasures_congr {sa sa' : SACoreSoftMacro} (hpos : sa.posSeq = sa'.posSeq)
    (hneg : sa.negSeq = sa'.negSeq) (hsize : sa.size = sa'.size)
    (hmacros : SameMacros sa.posSeq sa.macros sa'.macros) :
    softMeasures (SACoreSoftMacro.calPenalty P (SACoreSoftMacro.packFloorplan sa)) =
      softMeasures (SACoreSoftMacro.calPenalty P (SACoreSoftMacro.packFloorplan sa')) := by
  have hcore := evaluated_congr P.toSetup hpos hneg hmacros
  obtain ⟨hm, hw, hh⟩ := packFloorplan_congr hpos hneg hmacros
  unfold SACoreSoftMacro.calPenalty
  rw [softMeasures_calNotchPenalty, softMeasures_calNotchPenalty]
  refine Prod.ext hcore (Prod.ext ?_ (Prod.ext ?_ ?_))
  · change calBoundaryPenalty P sa.posSeq _ = calBoundaryPenalty P sa'.posSeq _
    rw [hpos]
    exact congrArg (calBoundaryPenalty P sa'.posSeq) hm
  · change calMacroBlockagePenalty P sa.posSeq _ = calMacroBlockagePenalty P sa'.posSeq _
    rw [hpos]
    exact congrArg (calMacroBlockagePenalty P sa'.posSeq) hm
  · exact notchPenalty_congr hpos hsize hw hh hm

/-- The sequences, the shapes of the macros and the penalties are those of `sa`. -/
structure SoftRestored (sa sa' : SACoreSoftMacro) : Prop where
  posSeq : sa'.posSeq = sa.posSeq
  negSeq : sa'.negSeq = sa.negSeq
  shape : ∀ id, softShape (sa'.macros id) = softShape (sa.macros id)
  measures : softMeasures sa' = softMeasures sa

/-- Packing the floorplan again and calculating its penalties gives those that it has. -/
def SoftEvaluated (P : SoftSetup) (sa : SACoreSoftMacro) : Prop :=
  softMeasures (SACoreSoftMacro.calPenalty P (SACoreSoftMacro.packFloorplan sa)) = softMeasures sa

/-- The floorplan after a macro has been resized. -/
def resizedFloorplan (P : SoftSetup) (c : Choice) (sa : SACoreSoftMacro) :
    SimulatedAnnealingCore SoftMacro :=
  SimulatedAnnealingCore.packFloorplan { sa.toSimulatedAnnealingCore with
    macros := Function.update sa.macros c.idx (resized P c sa.posSeq sa.macros) }

/-- The perturbation resizes no macro, or the macros are not saved again, or the macro stays as it is. -/
def KeepsShapes (P : SoftSetup) (c : Choice) (sa : SACoreSoftMacro) : Prop :=
  takesFifth P.toSetup c = false ∨
    savesMacros P (resizedFloorplan P c sa).width (resizedFloorplan P c sa).height = false ∨
    resized P c sa.posSeq sa.macros = sa.macros c.idx

/-- The soft annealer after an action that has been packed and measured. -/
def evaluate (P : SoftSetup) (sa : SACoreSoftMacro) (core : SimulatedAnnealingCore SoftMacro) :
    SACoreSoftMacro :=
  SACoreSoftMacro.calPenalty P
    (SACoreSoftMacro.packFloorplan { sa.backUpSoft with toSimulatedAnnealingCore := core })

theorem evaluate_core (sa : SACoreSoftMacro) (core : SimulatedAnnealingCore SoftMacro) :
    (evaluate P sa core).toSimulatedAnnealingCore = { core.packFloorplan.calPenalty P.toSetup with
      preMacros := if savesMacros P core.packFloorplan.width core.packFloorplan.height
        then core.packFloorplan.macros else core.preMacros } := by
  unfold evaluate SACoreSoftMacro.calPenalty
  rw [calNotchPenalty_eq]
  rfl

theorem evaluate_pre (sa : SACoreSoftMacro) (core : SimulatedAnnealingCore SoftMacro) :
    (evaluate P sa core).preBoundaryPenalty = sa.boundaryPenalty ∧
      (evaluate P sa core).preMacroBlockagePenalty = sa.macroBlockagePenalty ∧
      (evaluate P sa core).preNotchPenalty = sa.notchPenalty := by
  unfold evaluate SACoreSoftMacro.calPenalty
  rw [calNotchPenalty_eq]
  exact ⟨rfl, rfl, rfl⟩

/-- What the action leaves, when it is a resize. -/
theorem resizeOneCluster_cases {c : Choice} {core sa₁ : SimulatedAnnealingCore SoftMacro}
    (h : resizeOneCluster P c core = some sa₁) : sa₁ = { core with
      macroId := c.idx
      macros := Function.update core.macros c.idx (resized P c core.posSeq core.macros) } := by
  unfold resizeOneCluster at h
  split at h
  · cases h
  · exact (Option.some.inj h).symm

theorem soft_saved {c : Choice} {sa : SACoreSoftMacro} {sa₁ : SimulatedAnnealingCore SoftMacro}
    (h : act P.toSetup c (backUp sa.toSimulatedAnnealingCore) (resizeOneCluster P c) = some sa₁) :
    Saved sa.toSimulatedAnnealingCore sa₁ := by
  rcases act_cases h with ⟨-, hswap⟩ | ⟨-, hresize⟩
  · exact hswap.saved
  · rw [resizeOneCluster_cases hresize]
    exact ⟨rfl, rfl, rfl, rfl, fun _ => rfl, fun _ => rfl⟩

/-- The macros after the perturbation has been taken back: up to their location they are those from
before exactly when the shapes are kept. -/
theorem soft_sameMacros {c : Choice} {sa : SACoreSoftMacro} {sa₁ : SimulatedAnnealingCore SoftMacro}
    (h : act P.toSetup c (backUp sa.toSimulatedAnnealingCore) (resizeOneCluster P c) = some sa₁)
    {macros : Nat → SoftMacro}
    (hmacros : macros = if sa₁.actionId = 5 then
      Function.update sa₁.packFloorplan.macros sa₁.macroId.toNat
        ((if savesMacros P sa₁.packFloorplan.width sa₁.packFloorplan.height
          then sa₁.packFloorplan.macros else sa₁.preMacros) sa₁.macroId.toNat)
      else sa₁.packFloorplan.macros) :
    (KeepsShapes P c sa → SameMacros sa.posSeq macros sa.macros) ∧
      (¬KeepsShapes P c sa → softShape (macros c.idx) ≠ softShape (sa.macros c.idx)) := by
  rcases act_cases h with ⟨hfifth, hswap⟩ | ⟨hfifth, hresize⟩
  · have hsame : sa₁.macros = sa.macros :=
      (congrArg SimulatedAnnealingCore.macros hswap.eq).trans rfl
    refine ⟨fun _ => ?_, fun hkeeps => absurd (Or.inl hfifth) hkeeps⟩
    rw [hmacros, if_neg hswap.action, ← hsame]
    exact packFloorplan_sameMacros sa₁ hswap.mem
  · have heq := resizeOneCluster_cases hresize
    have hidx : sa₁.macroId.toNat = c.idx := congrArg (fun core => core.macroId.toNat) heq
    have haction : sa₁.actionId = 5 := (congrArg actionId heq).trans rfl
    have hpre : sa₁.preMacros = sa.macros := (congrArg preMacros heq).trans rfl
    have hpos : sa₁.posSeq = sa.posSeq := (congrArg SimulatedAnnealingCore.posSeq heq).trans rfl
    have hresized : sa₁.macros = Function.update sa.macros c.idx (resized P c sa.posSeq sa.macros) :=
      (congrArg SimulatedAnnealingCore.macros heq).trans rfl
    have hplan : sa₁.packFloorplan.width = (resizedFloorplan P c sa).width ∧
        sa₁.packFloorplan.height = (resizedFloorplan P c sa).height := by
      rw [heq]
      exact ⟨rfl, rfl⟩
    rw [if_pos haction, hidx, hpre, hplan.1, hplan.2] at hmacros
    have hpacked : SameMacros sa.posSeq sa₁.packFloorplan.macros sa₁.macros :=
      packFloorplan_sameMacros sa₁ fun id hid => hpos ▸ hid
    by_cases hsaves : savesMacros P (resizedFloorplan P c sa).width (resizedFloorplan P c sa).height = true
    · rw [if_pos hsaves, Function.update_eq_self] at hmacros
      by_cases hsame : resized P c sa.posSeq sa.macros = sa.macros c.idx
      · rw [hsame, Function.update_eq_self] at hresized
        refine ⟨fun _ => ?_, fun hkeeps => absurd (Or.inr (Or.inr hsame)) hkeeps⟩
        rw [hmacros, ← hresized]
        exact hpacked
      · refine ⟨fun hkeeps => ?_, fun _ hshape => hsame (resized_of_shape ?_)⟩
        · rcases hkeeps with h | h | h
          · exact absurd (hfifth.symm.trans h) (by decide)
          · exact absurd (hsaves.symm.trans h) (by decide)
          · exact absurd h hsame
        · have hkept := hpacked.same softShape_setX softShape_setY c.idx
          rw [hresized, Function.update_self] at hkept
          rw [← hshape, hmacros, hkept]
    · rw [if_neg hsaves] at hmacros
      refine ⟨fun _ id => ?_, fun hkeeps => absurd (Or.inr (Or.inl (Bool.eq_false_iff.mpr hsaves))) hkeeps⟩
      by_cases hid : id = c.idx
      · rw [hmacros, hid, Function.update_self]
        split <;> rfl
      · have hother := hpacked id
        rw [hresized, Function.update_of_ne hid] at hother
        rw [hmacros, Function.update_of_ne hid]
        exact hother

/-- The macros that `restore` leaves, but for those of a resize. -/
def restoredMacros (sa : SACoreSoftMacro) : Nat → SoftMacro :=
  Function.update sa.macros sa.macroId.toNat (sa.preMacros sa.macroId.toNat)

theorem restored_macros (sa : SACoreSoftMacro) (sa₁ : SimulatedAnnealingCore SoftMacro) :
    (restoreWith (evaluate P sa sa₁).toSimulatedAnnealingCore
      (restoredMacros (evaluate P sa sa₁))).macros =
      if sa₁.actionId = 5 then
        Function.update sa₁.packFloorplan.macros sa₁.macroId.toNat
          ((if savesMacros P sa₁.packFloorplan.width sa₁.packFloorplan.height
            then sa₁.packFloorplan.macros else sa₁.preMacros) sa₁.macroId.toNat)
      else sa₁.packFloorplan.macros := by
  unfold restoredMacros
  rw [evaluate_core]
  rfl

theorem restore_eq {sa : SACoreSoftMacro} (hsize : sa.size ≠ 0) : SACoreSoftMacro.restore sa = { sa with
    toSimulatedAnnealingCore := restoreWith sa.toSimulatedAnnealingCore (restoredMacros sa)
    boundaryPenalty := sa.preBoundaryPenalty
    macroBlockagePenalty := sa.preMacroBlockagePenalty
    notchPenalty := sa.preNotchPenalty } :=
  if_neg hsize

/-- For every state and every random choice: a perturbation of soft macros that is taken back leaves no
trace exactly when the penalties were those of the floorplan, and the shapes are kept. -/
theorem soft_restored_iff {c : Choice} {sa sa' : SACoreSoftMacro}
    (h : SACoreSoftMacro.perturb P sa c = some sa') :
    SoftRestored sa (SACoreSoftMacro.restore sa') ∧ SoftEvaluated P (SACoreSoftMacro.restore sa') ↔
      SoftEvaluated P sa ∧ (sa.size = 0 ∨ KeepsShapes P c sa) := by
  unfold SACoreSoftMacro.perturb at h
  by_cases hsize : sa.size = 0
  · rw [if_pos hsize] at h
    obtain rfl := Option.some.inj h
    have hrestore : SACoreSoftMacro.restore sa = sa := if_pos hsize
    rw [hrestore]
    exact ⟨fun h => ⟨h.2, Or.inl hsize⟩, fun h => ⟨⟨rfl, rfl, fun _ => rfl, rfl⟩, h.1⟩⟩
  · rw [if_neg hsize] at h
    obtain ⟨sa₁, hact, hsa'⟩ := Option.map_eq_some_iff.mp h
    obtain rfl : evaluate P sa sa₁ = sa' := hsa'
    have hsaved := soft_saved hact
    have hsaved' : Saved sa.toSimulatedAnnealingCore (evaluate P sa sa₁).toSimulatedAnnealingCore := by
      rw [evaluate_core]
      exact ⟨hsaved.posSeq, hsaved.negSeq, hsaved.measures, hsaved.size, hsaved.keepsPos, hsaved.keepsNeg⟩
    have hsize' : (evaluate P sa sa₁).size ≠ 0 := hsaved'.size ▸ hsize
    have hrestore := restore_eq hsize'
    obtain ⟨hboundary, hblockage, hnotch⟩ := evaluate_pre (P := P) sa sa₁
    obtain ⟨hpos, hneg, hcore⟩ := hsaved'.restored (restoredMacros (evaluate P sa sa₁))
    obtain ⟨hkeeps, hloses⟩ := soft_sameMacros hact (restored_macros sa sa₁)
    set back := SACoreSoftMacro.restore (evaluate P sa sa₁) with hback
    have hbackPos : back.posSeq = sa.posSeq := by rw [hrestore]; exact hpos
    have hbackNeg : back.negSeq = sa.negSeq := by rw [hrestore]; exact hneg
    have hbackSize : back.size = sa.size := by rw [hrestore]; exact hsaved'.size
    have hmeasures : softMeasures back = softMeasures sa := by
      rw [hrestore]
      exact Prod.ext hcore (Prod.ext hboundary (Prod.ext hblockage hnotch))
    have hmacros : back.macros = (restoreWith (evaluate P sa sa₁).toSimulatedAnnealingCore
        (restoredMacros (evaluate P sa sa₁))).macros := by rw [hrestore]
    rw [← hmacros] at hkeeps hloses
    by_cases hkeep : KeepsShapes P c sa
    · have hsame := hkeeps hkeep
      have hiff : SoftEvaluated P back ↔ SoftEvaluated P sa := by
        unfold SoftEvaluated
        rw [hmeasures, softMeasures_congr hbackPos hbackNeg hbackSize (hbackPos.symm ▸ hsame)]
      refine ⟨fun h => ⟨hiff.mp h.2, Or.inr hkeep⟩,
        fun h => ⟨⟨hbackPos, hbackNeg, ?_, hmeasures⟩, hiff.mpr h.1⟩⟩
      exact hsame.same softShape_setX softShape_setY
    · refine ⟨fun h => absurd (h.1.shape c.idx) (hloses hkeep), fun h => ?_⟩
      exact absurd h.2 (not_or.mpr ⟨hsize, hkeep⟩)

/-- A floorplan that has been packed and measured has the measures that doing so again gives. -/
theorem softEvaluated_packed (sa : SACoreSoftMacro) :
    SoftEvaluated P (SACoreSoftMacro.calPenalty P (SACoreSoftMacro.packFloorplan sa)) := by
  refine softMeasures_congr ?_ ?_ ?_ ?_ <;> unfold SACoreSoftMacro.calPenalty <;> rw [calNotchPenalty_eq]
  · rfl
  · rfl
  · rfl
  · exact packFloorplan_sameMacros sa.toSimulatedAnnealingCore fun id hid => hid

end Soft

/-! ### Rejected perturbations -/

/-- For every state and every random choice: what a rejected perturbation leaves of soft macros is
exactly when the shapes are kept what it started from, and of hard macros always. -/
theorem restore_perturb_iff (P : SoftSetup) (Q : Setup) (c : Choice) :
    (∀ sa sa' : SACoreSoftMacro,
      SACoreSoftMacro.perturb P sa c = some sa' →
        (SoftRestored sa (SACoreSoftMacro.restore sa') ∧
            SoftEvaluated P (SACoreSoftMacro.restore sa') ↔
          SoftEvaluated P sa ∧ (sa.size = 0 ∨ KeepsShapes P c sa))) ∧
      ∀ sa sa' : SimulatedAnnealingCore HardMacro,
        SACoreHardMacro.perturb Q sa c = some sa' →
          (HardRestored sa (SACoreHardMacro.restore sa') ∧
              HardEvaluated Q (SACoreHardMacro.restore sa') ↔ HardEvaluated Q sa) := by
  refine ⟨fun sa sa' h => soft_restored_iff h, fun sa sa' h => ?_⟩
  obtain ⟨hrestored, hiff⟩ := hard_restored Q h
  exact ⟨fun h => hiff.mp h.2, fun h => ⟨hrestored, hiff.mpr h⟩⟩

/-- An outline of ten by ten; the notches count, and every perturbation is a resize. -/
def notchSetup : SoftSetup where
  outline := ⟨0, 0, 10, 10⟩
  dieArea := ⟨0, 0, 10, 10⟩
  leftIsBlocked := false
  rightIsBlocked := false
  bottomIsBlocked := false
  topIsBlocked := false
  nets := []
  fences := []
  guides := []
  coreWeights := ⟨0, 0, 0, 0, 0⟩
  posSwapProb := 0
  negSwapProb := 0
  doubleSwapProb := 0
  exchangeProb := 0
  rootX := 0
  rootY := 0
  rootWidth := 10
  rootHeight := 10
  blockages := []
  boundaryWeight := 0
  macroBlockageWeight := 0
  notchWeight := 1
  notchHTh := 1
  notchVTh := 1

/-- A cluster of standard cells, one wide and four high. -/
def stdCells : SoftMacro :=
  ⟨0, 0, 1, 4, 4, [⟨1, 4⟩], [⟨1, 4⟩], some ⟨.StdCellCluster, false, false, .NONE, 0, 0, 4⟩, false⟩

def oneStdCells : SACoreSoftMacro :=
  { posSeq := [0], negSeq := [0], size := 1, macros := fun _ => stdCells, preMacros := fun _ => stdCells }

def oneEvaluated : SACoreSoftMacro :=
  SACoreSoftMacro.calPenalty notchSetup (SACoreSoftMacro.packFloorplan oneStdCells)

/-- The resize to a width of two. -/
def widen : Choice := ⟨1, 0, 0, 0, 0, 0, 0, 1 / 3⟩

theorem not_keepsShapes_widen : ¬KeepsShapes notchSetup widen oneEvaluated := by
  have hwidth : (SACoreSoftMacro.resized notchSetup widen oneEvaluated.posSeq oneEvaluated.macros).width ≠
      (oneEvaluated.macros widen.idx).width := by decide +kernel
  have hsaves : savesMacros notchSetup (resizedFloorplan notchSetup widen oneEvaluated).width
      (resizedFloorplan notchSetup widen oneEvaluated).height = true := by decide +kernel
  rintro (h | h | h)
  · exact absurd h (by decide +kernel)
  · exact absurd (hsaves.symm.trans h) (by decide)
  · exact hwidth (congrArg SoftMacro.width h)

/-- The cluster of standard cells stays at the width of a rejected resize. -/
theorem not_restored_perturb :
    ¬∀ (P : SoftSetup) (c : Choice) (sa sa' : SACoreSoftMacro), SoftEvaluated P sa →
      SACoreSoftMacro.perturb P sa c = some sa' →
        SoftRestored sa (SACoreSoftMacro.restore sa') ∧
          SoftEvaluated P (SACoreSoftMacro.restore sa') := by
  intro hall
  obtain ⟨sa', hperturb⟩ : ∃ sa', SACoreSoftMacro.perturb notchSetup oneEvaluated widen = some sa' :=
    Option.isSome_iff_exists.mp (by decide +kernel)
  have hrestored := hall notchSetup widen oneEvaluated sa' (softEvaluated_packed oneStdCells) hperturb
  rcases ((soft_restored_iff hperturb).mp hrestored).2 with hsize | hkeeps
  · exact absurd hsize (by decide +kernel)
  · exact not_keepsShapes_widen hkeeps

/-- A swap that is rejected leaves no trace. -/
theorem restore_perturb_swap :
    ∃ sa', SACoreSoftMacro.perturb notchSetup oneEvaluated { widen with op := 0 } = some sa' ∧
      SoftRestored oneEvaluated (SACoreSoftMacro.restore sa') := by
  obtain ⟨sa', hperturb⟩ : ∃ sa',
      SACoreSoftMacro.perturb notchSetup oneEvaluated { widen with op := 0 } = some sa' :=
    Option.isSome_iff_exists.mp (by decide +kernel)
  have hiff :=
    (restore_perturb_iff notchSetup notchSetup.toSetup { widen with op := 0 }).1 oneEvaluated sa' hperturb
  exact ⟨sa', hperturb, (hiff.mpr ⟨softEvaluated_packed oneStdCells, Or.inr (Or.inl (by decide +kernel))⟩).1⟩

end OpenRoad.Mpl
