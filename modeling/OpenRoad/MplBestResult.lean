import OpenRoad.MplRestore
import OpenRoad.MplShapeCurve

/-!
The annealing of soft macros with the best valid result. Of a floorplan that is recorded, only the
sequence pair and the widths of the macros are kept; the heights are found again from the shape curves,
those of macro clusters from their area at the end of the annealing.
-/

namespace OpenRoad.Mpl

open Macro SimulatedAnnealingCore Run

/-- The sequence pair and the widths of the last floorplan that was recorded. -/
structure BestValidResult where
  posSequence : List Nat := []
  negSequence : List Nat := []
  macroIdToWidth : Nat → Option ℚ := fun _ => none

/-- The costs of a floorplan, and how likely one that costs more is accepted at a temperature. -/
structure AnnealingCosts where
  calNormCost : SoftSetup → SACoreSoftMacro → ℚ
  prob : ℚ → ℚ → ℚ
  initTemperature : ℚ
  tFactor : ℚ

/-- The state of `fastSA`. Nothing reads `recorded`, the floorplan of the last record. -/
structure Annealing where
  sa : SACoreSoftMacro
  best : BestValidResult
  preCost : ℚ
  temperature : ℚ
  notchWeight : ℚ
  recorded : Option SACoreSoftMacro

namespace SACoreSoftMacro

variable (P : SoftSetup) (C : AnnealingCosts)

def isValid (sa : SACoreSoftMacro) : Bool :=
  sa.width ≤ P.outline.getWidth.ceil && sa.height ≤ P.outline.getHeight.ceil

/-- `initialize`: the penalties of a few perturbations are averaged, and the last one stays. -/
def initializeSA (sa : SACoreSoftMacro) (choices : List Choice) : Option SACoreSoftMacro :=
  run (fun sa c => sa.perturb P c) sa choices

def updateBestValidResult (st : Annealing) : Annealing :=
  { st with
    best :=
      { posSequence := st.sa.posSeq
        negSequence := st.sa.negSeq
        macroIdToWidth := st.sa.posSeq.foldl
          (fun widths id => Function.update widths id (some (st.sa.macros id).width))
          st.best.macroIdToWidth }
    recorded := some st.sa }

/-- The recorded width of a macro; a missing one is an exception. -/
def useWidth (widths : Nat → Option ℚ) (macros : Nat → SoftMacro) (id : Nat) :
    Option (Nat → SoftMacro) :=
  (widths id).map fun width =>
    let m := macros id
    Function.update macros id
      (if m.isMacroCluster then m.setShapeF width (m.getArea / width) else m.setWidth width)

def useBestValidResult (best : BestValidResult) (sa : SACoreSoftMacro) : Option SACoreSoftMacro :=
  (run (useWidth best.macroIdToWidth) sa.macros best.posSequence).map fun macros =>
    calPenalty P (packFloorplan { sa with
      posSeq := best.posSequence, negSeq := best.negSequence, macros := macros })

/-- One perturbation, with the random number it is accepted by. -/
def annealOnce (st : Annealing) (draw : Choice × ℚ) : Option Annealing :=
  let Q := { P with notchWeight := st.notchWeight }
  (st.sa.perturb Q draw.1).map fun sa =>
    let st := { st with sa := sa }
    let cost := C.calNormCost Q sa
    let keepResult := cost < st.preCost || st.best.posSequence.isEmpty
    let st := if sa.isValid P && keepResult then updateBestValidResult st else st
    let deltaCost := cost - st.preCost
    let prob := if deltaCost > 0 then C.prob deltaCost st.temperature else 1
    if draw.2 < prob then { st with preCost := cost } else { st with sa := sa.restore }

/-- The steps of the annealing from number `step` on; towards the end the notches count. -/
def annealFrom (maxNumStep : Nat) : Nat → Annealing → List (List (Choice × ℚ)) → Option Annealing
  | _, st, [] => some st
  | step, st, draws :: rest =>
      (run (annealOnce P C) st draws).bind fun st =>
        let st := { st with temperature := st.temperature * C.tFactor }
        let st := if step + 1 + st.sa.size * 2 = maxNumStep then
            let sa := calPenalty P (packFloorplan st.sa)
            { st with notchWeight := P.notchWeight, sa := sa, preCost := C.calNormCost P sa }
          else st
        annealFrom maxNumStep (step + 1) st rest

/-- The loops of `fastSA`. -/
def anneal (sa : SACoreSoftMacro) (steps : List (List (Choice × ℚ))) : Option Annealing :=
  let st : Annealing :=
    { sa := sa, best := {}, preCost := C.calNormCost P sa, temperature := C.initTemperature
      notchWeight := 0, recorded := none }
  annealFrom P C steps.length 1 (if sa.isValid P then updateBestValidResult st else st) steps

/-- What follows the loops: the floorplan is packed, and the best valid one is used if it is not
valid. -/
def finishSA (st : Annealing) : Option SACoreSoftMacro :=
  let sa := calPenalty { P with notchWeight := st.notchWeight } (packFloorplan st.sa)
  if !sa.isValid P && !st.best.posSequence.isEmpty then
    useBestValidResult { P with notchWeight := st.notchWeight } st.best sa
  else some sa

def fastSA (sa : SACoreSoftMacro) (steps : List (List (Choice × ℚ))) : Option SACoreSoftMacro :=
  (anneal P C sa steps).bind (finishSA P)

/-- The shapes, the floorplan and its locations are those of `sa`, and it is valid. -/
structure FloorplanRestored (sa sa' : SACoreSoftMacro) : Prop where
  shape : ∀ id ∈ sa.posSeq, (sa'.macros id).width = (sa.macros id).width ∧
    (sa'.macros id).height = (sa.macros id).height
  size : sa'.width = sa.width ∧ sa'.height = sa.height
  location : ∀ id, (sa'.macros id).x = (sa.macros id).x ∧ (sa'.macros id).y = (sa.macros id).y
  valid : sa'.isValid P = true

/-- The area of every macro cluster is that of the recorded shape. -/
def AreasKept (sa : SACoreSoftMacro) (macros : Nat → SoftMacro) : Prop :=
  ∀ id ∈ sa.posSeq, (macros id).isMacroCluster = true →
    (macros id).getArea = (sa.macros id).width * (sa.macros id).height

/-! ### Macros with a shape curve -/

/-- A new macro whose shape curve was set. -/
inductive Shaped : SoftMacro → Prop where
  | tilings {m : SoftMacro} {tilings : List (ℚ × ℚ)} {force : Bool} :
      m.widthIntervals = [] → m.heightIntervals = [] → m.isMacroCluster = true → tilings ≠ [] →
      (∀ tiling ∈ tilings, 0 < tiling.1 ∧ 0 < tiling.2) → Shaped (m.setTilings tilings force)
  | intervals {m : SoftMacro} {cluster : Cluster} {widthIntervals : List Interval} {area : ℚ}
      (S : StdSort isMinWidthSmaller) :
      m.cluster = some cluster → cluster.type ≠ .HardMacroCluster → cluster.isIOCluster = false →
      widthIntervals ≠ [] → (∀ i ∈ widthIntervals, i.Proper) → 0 < area →
      Shaped (m.setShapes S widthIntervals area)

/-- What the annealer starts from: the macros of the sequence pair have shape curves, and no
floorplan was packed. -/
structure AnnealStart (sa : SACoreSoftMacro) : Prop where
  posSeq : sa.posSeq.Perm (List.range sa.posSeq.length)
  length_le : sa.posSeq.length ≤ sa.size
  shaped : ∀ id ∈ sa.posSeq, Shaped (sa.macros id)
  plan : sa.width = 0 ∧ sa.height = 0

/-- The macro and the interval that are drawn exist, and the number is between 0 and 1. -/
def DrawnFrom (sa : SACoreSoftMacro) (c : Choice) : Prop :=
  c.idx < sa.posSeq.length ∧ c.interval < (sa.macros c.idx).widthIntervals.length ∧
    0 ≤ c.draw ∧ c.draw ≤ 1

/-! ### What shapes a macro keeps -/

/-- A macro with a positive width on its intervals; one that is no macro cluster is on its curve. -/
structure Curved (m : SoftMacro) : Prop where
  proper : ∀ i ∈ m.widthIntervals, i.Proper
  width_pos : 0 < m.width
  product : m.width * m.height = m.area
  curve : m.isMacroCluster = false → m.OnCurve ∧ m.isRigid = false

theorem Curved.congr {m m' : SoftMacro} (h : Curved m) (hshape : softShape m' = softShape m)
    (hwidths : m'.widthIntervals = m.widthIntervals) (hheights : m'.heightIntervals = m.heightIntervals)
    (hcluster : m'.cluster = m.cluster) : Curved m' := by
  rcases m with ⟨_, _, width, height, area, widths, heights, cluster, _⟩
  rcases m' with ⟨_, _, width', height', area', widths', heights', cluster', _⟩
  obtain ⟨rfl, hrest⟩ := Prod.mk.inj hshape
  obtain ⟨rfl, rfl⟩ := Prod.mk.inj hrest
  obtain rfl := hwidths
  obtain rfl := hheights
  obtain rfl := hcluster
  exact ⟨h.proper, h.width_pos, h.product, fun hkind => by
    obtain ⟨⟨h1, h2, h3, h4, h5, h6⟩, hrigid⟩ := h.curve hkind
    exact ⟨⟨h1, h2, h3, h4, h5, h6⟩, hrigid⟩⟩

theorem OnCurve.width_pos {m : SoftMacro} (h : m.OnCurve) : 0 < m.width := by
  obtain ⟨i, hi, hhas⟩ := h.onPiece
  exact (h.proper i hi).pos_of_has hhas

theorem Curved.of_onCurve {m : SoftMacro} (h : m.OnCurve) (hrigid : m.isRigid = false) : Curved m :=
  ⟨h.proper, OnCurve.width_pos h, h.product, fun _ => ⟨h, hrigid⟩⟩

theorem Shaped.curved {m : SoftMacro} (h : Shaped m) : Curved m := by
  cases h with
  | @tilings m tilings force hwidths hheights hkind hne hpos =>
      obtain ⟨⟨width, height⟩, rest, rfl⟩ := List.exists_cons_of_ne_nil hne
      have heq : m.setTilings ((width, height) :: rest) force =
          { m with
            widthIntervals := ((width, height) :: rest).map fun tiling => ⟨tiling.1, tiling.1⟩
            heightIntervals := ((width, height) :: rest).map fun tiling => ⟨tiling.2, tiling.2⟩
            width := width, height := height, area := width * height } := by
        unfold SoftMacro.setTilings
        rw [if_neg (by simp [hkind]), hwidths, hheights]
        rfl
      rw [heq]
      refine ⟨fun i hi => ?_, (hpos _ List.mem_cons_self).1, rfl, fun hnot => ?_⟩
      · obtain ⟨tiling, htiling, rfl⟩ := List.mem_map.mp hi
        exact ⟨(hpos tiling htiling).1, le_rfl⟩
      · exact absurd (hkind.symm.trans hnot) (by decide)
  | @intervals m cluster widthIntervals area S hcluster hkind hio hne hproper harea =>
      have hcurve := SoftMacro.setShapes_onCurve S hcluster hkind hio hne hproper harea
      refine Curved.of_onCurve hcurve ?_
      have hkept : (m.setShapes S widthIntervals area).cluster = m.cluster := by
        unfold SoftMacro.setShapes
        rw [apply_ite SoftMacro.cluster]
        refine ite_eq_iff'.mpr ⟨fun _ => rfl, fun _ => ?_⟩
        dsimp only
        split <;> rfl
      have hlength : (m.setShapes S widthIntervals area).widthIntervals.length =
          (m.setShapes S widthIntervals area).heightIntervals.length := by
        rw [hcurve.heights, List.length_map]
      obtain ⟨i, hi, -⟩ := hcurve.onPiece
      have hsome : (m.setShapes S widthIntervals area).widthIntervals ≠ [] := List.ne_nil_of_mem hi
      unfold SoftMacro.isRigid
      rw [hkept, hcluster, hlength]
      simp [hcurve.area_pos.ne', hsome, hkind, hio]

/-- A resize keeps the curve. -/
theorem Curved.resized {P : SoftSetup} {c : Choice} {posSeq : List Nat} {macros : Nat → SoftMacro}
    (h : Curved (macros c.idx)) (hinterval : c.interval < (macros c.idx).widthIntervals.length)
    (hlow : 0 ≤ c.draw) (hhigh : c.draw ≤ 1) : Curved (resized P c posSeq macros) := by
  generalize hm : macros c.idx = m at h hinterval
  -- moving along the curve
  have hmove : ∀ {m' : SoftMacro}, m.isMacroCluster = false → (m' = m ∨ ∃ i ∈ m.widthIntervals,
      ∃ v, i.Has v ∧ m' = m.moveTo v) → Curved m' := by
    rintro m' hkind (rfl | ⟨i, hi, v, hv, rfl⟩)
    · exact h
    · obtain ⟨hcurve, hrigid⟩ := h.curve hkind
      exact Curved.of_onCurve (hcurve.moveTo hi hv) hrigid
  have hrandom : Curved (m.resizeRandomly c.interval c.draw) := by
    cases hkind : m.isMacroCluster with
    | false =>
        obtain ⟨hcurve, hrigid⟩ := h.curve hkind
        have hcurve' := hcurve.resizeRandomly hinterval hlow hhigh
        refine Curved.of_onCurve hcurve' ?_
        have hne := hcurve'.area_pos.ne'
        have harea := hcurve.area_pos.ne'
        revert hne hrigid
        unfold SoftMacro.resizeRandomly
        split
        · unfold SoftMacro.isRigid
          simp only [harea, decide_false, Bool.false_or]
          intro hrigid hne
          simp only [hne, decide_false, Bool.false_or]
          exact hrigid
        · exact fun hrigid _ => hrigid
    | true =>
        unfold SoftMacro.resizeRandomly
        split
        case h_2 => exact h
        case h_1 w hgt hw _ =>
          have hproper := h.proper w (List.mem_of_getElem? hw)
          have hspan : 0 ≤ c.draw * (w.max - w.min) :=
            mul_nonneg hlow (sub_nonneg.mpr hproper.le)
          have hpos : 0 < w.min + c.draw * (w.max - w.min) :=
            add_pos_of_pos_of_nonneg hproper.pos hspan
          exact ⟨h.proper, hpos, mul_div_cancel₀ _ hpos.ne',
            fun hnot => absurd (hkind.symm.trans hnot) (by decide)⟩
  have hwidth : ∀ v, m.isMacroCluster = false → Curved (m.setWidth v) := by
    intro v hkind
    refine hmove hkind ?_
    rcases SoftMacro.setWidth_cases (h.curve hkind).1 v with ⟨-, heq⟩ | ⟨i, hi, u, hu, heq, -⟩
    · exact Or.inl heq
    · exact Or.inr ⟨i, hi, u, hu, heq⟩
  have hheight : ∀ v, m.isMacroCluster = false → Curved (m.setHeight v) := fun v hkind =>
    hmove hkind (SoftMacro.setHeight_cases (h.curve hkind).1 v)
  unfold SACoreSoftMacro.resized
  rw [hm]
  dsimp only
  split
  · exact hrandom
  · have hkind : m.isMacroCluster = false := Bool.eq_false_iff.mpr ‹_›
    split_ifs
    · exact hrandom
    · exact hrandom
    · exact hwidth _ hkind
    · exact h
    · exact hwidth _ hkind
    · exact hheight _ hkind
    · exact h
    · exact hheight _ hkind

/-! ### Sequence pairs -/

theorem swap_perm (seq : List Nat) (i j : Nat) : (swap seq i j).Perm seq := by
  unfold swap
  split
  case h_2 => exact List.Perm.refl seq
  case h_1 a b ha hb =>
    obtain ⟨hi, rfl⟩ := List.getElem?_eq_some_iff.mp ha
    obtain ⟨hj, rfl⟩ := List.getElem?_eq_some_iff.mp hb
    exact List.set_set_perm hi hj

/-- An action leaves the positive sequence a permutation of what it was. -/
theorem act_perm {T : Type} {P : Setup} {c : Choice} {sa sa' : SimulatedAnnealingCore T}
    {fifth : SimulatedAnnealingCore T → Option (SimulatedAnnealingCore T)}
    (hfifth : ∀ sa sa', fifth sa = some sa' → sa'.posSeq = sa.posSeq)
    (h : act P c sa fifth = some sa') : sa'.posSeq.Perm sa.posSeq := by
  unfold act at h
  dsimp only at h
  split_ifs at h
  · obtain rfl := Option.some.inj h
    unfold singleSeqSwap
    split
    · exact List.Perm.refl _
    · exact swap_perm _ _ _
  · obtain rfl := Option.some.inj h
    unfold singleSeqSwap
    split <;> exact List.Perm.refl _
  · obtain rfl := Option.some.inj h
    unfold doubleSeqSwap
    split
    · exact List.Perm.refl _
    · exact swap_perm _ _ _
  · unfold exchangeMacros at h
    split at h
    · obtain rfl := Option.some.inj h
      exact List.Perm.refl _
    · dsimp only at h
      split at h
      · obtain rfl := Option.some.inj h
        exact swap_perm _ _ _
      · exact absurd h (Option.some_ne_none _).symm
  · rw [hfifth _ _ h]

/-! ### The invariant of the annealing -/

/-- What is left of a macro when its shape and its location are taken away. -/
def frame (m : SoftMacro) : SoftMacro := atOrigin { m with width := 0, height := 0, area := 0 }

theorem frame_setX (m : SoftMacro) (v : ℚ) : frame (setX m v) = frame m := by
  rcases m with ⟨_, _, _, _, _, _, _, _, fixed⟩
  cases fixed <;> rfl

theorem frame_setY (m : SoftMacro) (v : ℚ) : frame (setY m v) = frame m := by
  rcases m with ⟨_, _, _, _, _, _, _, _, fixed⟩
  cases fixed <;> rfl

/-- The frame, the width, the height and the area are all of a macro but its location. -/
theorem atOrigin_eq_of_frame {m m' : SoftMacro} (hframe : frame m = frame m')
    (hshape : softShape m = softShape m') : atOrigin m = atOrigin m' := by
  have hrebuild : ∀ m : SoftMacro, atOrigin m = { frame m with
      width := m.width, height := m.height, area := m.area } := by
    rintro ⟨_, _, _, _, _, _, _, _, fixed⟩
    cases fixed <;> rfl
  obtain ⟨hwidth, hrest⟩ := Prod.mk.inj hshape
  obtain ⟨hheight, harea⟩ := Prod.mk.inj hrest
  rw [hrebuild, hrebuild, hframe, hwidth, hheight, harea]

theorem frame_intervals {m m' : SoftMacro} (h : frame m = frame m') :
    m.widthIntervals = m'.widthIntervals ∧ m.heightIntervals = m'.heightIntervals ∧
      m.cluster = m'.cluster := by
  have hkept : ∀ m : SoftMacro, (frame m).widthIntervals = m.widthIntervals ∧
      (frame m).heightIntervals = m.heightIntervals ∧ (frame m).cluster = m.cluster := by
    rintro ⟨_, _, _, _, _, _, _, _, fixed⟩
    cases fixed <;> exact ⟨rfl, rfl, rfl⟩
  obtain ⟨h1, h2, h3⟩ := hkept m
  obtain ⟨h1', h2', h3'⟩ := hkept m'
  exact ⟨h1.symm.trans (h ▸ h1'), h2.symm.trans (h ▸ h2'), h3.symm.trans (h ▸ h3')⟩

section Invariant

variable {start : SACoreSoftMacro}

/-- What the annealing may have made of a macro. -/
structure Annealed (start : SACoreSoftMacro) (id : Nat) (m : SoftMacro) : Prop where
  frame_eq : frame m = frame (start.macros id)
  other : start.posSeq.length ≤ id → m = start.macros id
  curved : id < start.posSeq.length → Curved m

/-- A floorplan of the sequence pair as packing it once more leaves it. -/
def PackedPlan (sa : SACoreSoftMacro) : Prop :=
  sa.toSimulatedAnnealingCore.packFloorplan.macros = sa.macros ∧
    sa.toSimulatedAnnealingCore.packFloorplan.width = sa.width ∧
    sa.toSimulatedAnnealingCore.packFloorplan.height = sa.height

/-- The state of the annealer: the ids of the sequence are those of the start. -/
structure AnnealInv (start sa : SACoreSoftMacro) : Prop where
  posSeq : sa.posSeq.Perm (List.range start.posSeq.length)
  size : sa.size = start.size
  macros : ∀ id, Annealed start id (sa.macros id)
  empty : sa.size = 0 → PackedPlan sa

namespace AnnealInv

variable {sa : SACoreSoftMacro} (h : AnnealInv start sa)

include h

theorem mem_posSeq {id : Nat} : id ∈ sa.posSeq ↔ id < start.posSeq.length := by
  rw [h.posSeq.mem_iff, List.mem_range]

theorem length_posSeq : sa.posSeq.length = start.posSeq.length := by
  rw [h.posSeq.length_eq, List.length_range]

end AnnealInv

/-- Packing moves the macros of the sequence. -/
theorem Annealed.packed {core : SimulatedAnnealingCore SoftMacro}
    (hpos : core.posSeq.Perm (List.range start.posSeq.length))
    (hmacros : ∀ id, Annealed start id (core.macros id)) (id : Nat) :
    Annealed start id (core.packFloorplan.macros id) := by
  refine ⟨?_, fun hid => ?_, fun hid => ?_⟩
  · rw [packFloorplan_same frame_setX frame_setY]
    exact (hmacros id).frame_eq
  · rw [packFloorplan_others core fun hmem => ?_]
    · exact (hmacros id).other hid
    · have hlt := List.mem_range.mp (hpos.mem_iff.mp hmem)
      omega
  · obtain ⟨h1, h2, h3⟩ := frame_intervals (packFloorplan_same frame_setX frame_setY core id)
    exact ((hmacros id).curved hid).congr
      (packFloorplan_same softShape_setX softShape_setY core id) h1 h2 h3

theorem Annealed.resized {P : SoftSetup} {c : Choice} (hc : DrawnFrom start c) {posSeq : List Nat}
    {macros : Nat → SoftMacro} (hmacros : ∀ id, Annealed start id (macros id)) (id : Nat) :
    Annealed start id (Function.update macros c.idx (resized P c posSeq macros) id) := by
  obtain ⟨hidx, hinterval, hlow, hhigh⟩ := hc
  by_cases hid : id = c.idx
  · subst hid
    rw [Function.update_self]
    obtain ⟨hframe, -, hcurved⟩ := hmacros c.idx
    refine ⟨?_, fun hle => absurd hidx (Nat.not_lt_of_le hle), fun hlt => ?_⟩
    · obtain ⟨width, height, area, heq⟩ := resized_eq (P := P) c posSeq macros
      rw [heq]
      exact hframe
    · refine (hcurved hlt).resized ?_ hlow hhigh
      rw [(frame_intervals hframe).1]
      exact hinterval
  · rw [Function.update_of_ne hid]
    exact hmacros id

/-- What a perturbation leaves: a packed floorplan, with the old sequence and macros to go back to. -/
theorem AnnealInv.perturb {P : SoftSetup} {c : Choice} {sa sa' : SACoreSoftMacro}
    (h : AnnealInv start sa) (hc : DrawnFrom start c) (hperturb : sa.perturb P c = some sa') :
    AnnealInv start sa' ∧ PackedPlan sa' ∧ AnnealInv start sa'.restore := by
  unfold SACoreSoftMacro.perturb at hperturb
  by_cases hsize : sa.size = 0
  · rw [if_pos hsize] at hperturb
    obtain rfl := Option.some.inj hperturb
    have hrestore : SACoreSoftMacro.restore sa = sa := if_pos hsize
    rw [hrestore]
    exact ⟨h, h.empty hsize, h⟩
  · rw [if_neg hsize] at hperturb
    obtain ⟨core, hact, rfl⟩ := Option.map_eq_some_iff.mp hperturb
    have hsaved := soft_saved hact
    have hpos : core.posSeq.Perm (List.range start.posSeq.length) := by
      refine (act_perm (fun sa sa' hfifth => ?_) hact).trans h.posSeq
      rw [resizeOneCluster_cases hfifth]
    have hmacros : ∀ id, Annealed start id (core.macros id) := by
      rcases act_cases hact with ⟨-, hswap⟩ | ⟨-, hresize⟩
      · have hsame : core.macros = sa.macros := (congrArg SimulatedAnnealingCore.macros hswap.eq).trans rfl
        rw [hsame]
        exact h.macros
      · rw [resizeOneCluster_cases hresize]
        exact Annealed.resized hc h.macros
    have hpacked := Annealed.packed hpos hmacros
    have hcore := evaluate_core (P := P) sa core
    change AnnealInv start (evaluate P sa core) ∧ PackedPlan (evaluate P sa core) ∧
      AnnealInv start (evaluate P sa core).restore
    have hsize' : (evaluate P sa core).size ≠ 0 := by
      rw [hcore]
      exact hsaved.size ▸ hsize
    have hrestore := restore_eq hsize'
    refine ⟨⟨?_, ?_, ?_, fun heq => absurd heq hsize'⟩, ?_, ⟨?_, ?_, ?_, ?_⟩⟩
    · rw [hcore]
      exact hpos
    · rw [hcore]
      exact hsaved.size.trans h.size
    · rw [hcore]
      exact hpacked
    · unfold PackedPlan
      rw [hcore]
      exact @packFloorplan_congr SoftMacro _ _ _ core rfl rfl (packFloorplan_sameMacros core fun _ hid => hid)
    · rw [hrestore]
      unfold restoreWith
      rw [hcore]
      dsimp only
      split
      · exact hpos
      · exact hsaved.posSeq ▸ h.posSeq
    · rw [hrestore, hcore]
      exact hsaved.size.trans h.size
    · intro id
      rw [hrestore]
      change Annealed start id ((restoreWith (evaluate P sa core).toSimulatedAnnealingCore
        (restoredMacros (evaluate P sa core))).macros id)
      rw [restored_macros]
      split
      case isFalse => exact hpacked id
      case isTrue haction =>
        have hpre : core.preMacros = sa.macros := by
          rcases act_cases hact with ⟨-, hswap⟩ | ⟨-, hresize⟩
          · exact absurd haction hswap.action
          · rw [resizeOneCluster_cases hresize]
            rfl
        by_cases hid : id = core.macroId.toNat
        · rw [hid, Function.update_self]
          split
          · exact hpacked _
          · rw [hpre]
            exact h.macros _
        · rw [Function.update_of_ne hid]
          exact hpacked id
    · intro heq
      rw [hrestore] at heq
      exact absurd heq hsize'

/-- Packing once more. -/
theorem AnnealInv.repack {sa : SACoreSoftMacro} (P : SoftSetup) (h : AnnealInv start sa) :
    AnnealInv start (calPenalty P (packFloorplan sa)) ∧
      PackedPlan (calPenalty P (packFloorplan sa)) := by
  have hcore : (calPenalty P (packFloorplan sa)).macros =
        sa.toSimulatedAnnealingCore.packFloorplan.macros ∧
      (calPenalty P (packFloorplan sa)).posSeq = sa.posSeq ∧
      (calPenalty P (packFloorplan sa)).negSeq = sa.negSeq ∧
      (calPenalty P (packFloorplan sa)).size = sa.size ∧
      (calPenalty P (packFloorplan sa)).width = sa.toSimulatedAnnealingCore.packFloorplan.width ∧
      (calPenalty P (packFloorplan sa)).height = sa.toSimulatedAnnealingCore.packFloorplan.height := by
    unfold calPenalty
    rw [calNotchPenalty_eq]
    exact ⟨rfl, rfl, rfl, rfl, rfl, rfl⟩
  obtain ⟨hmacros, hpos, hneg, hsize, hwidth, hheight⟩ := hcore
  have hpacked : PackedPlan (calPenalty P (packFloorplan sa)) := by
    unfold PackedPlan
    rw [hmacros, hwidth, hheight]
    refine @packFloorplan_congr SoftMacro _ _ _ sa.toSimulatedAnnealingCore hpos hneg ?_
    rw [hmacros, hpos]
    exact packFloorplan_sameMacros sa.toSimulatedAnnealingCore fun _ hid => hid
  refine ⟨⟨hpos ▸ h.posSeq, hsize.trans h.size, ?_, fun _ => hpacked⟩, hpacked⟩
  rw [hmacros]
  exact Annealed.packed h.posSeq h.macros

/-- The record is of a floorplan that was packed and valid. -/
structure Kept (P : SoftSetup) (start : SACoreSoftMacro) (best : BestValidResult)
    (kept : SACoreSoftMacro) : Prop where
  inv : AnnealInv start kept
  packed : PackedPlan kept
  valid : kept.isValid P = true
  posSequence : best.posSequence = kept.posSeq
  negSequence : best.negSequence = kept.negSeq
  width : ∀ id ∈ kept.posSeq, best.macroIdToWidth id = some (kept.macros id).width

structure RecordInv (P : SoftSetup) (start : SACoreSoftMacro) (st : Annealing) : Prop where
  inv : AnnealInv start st.sa
  kept : ∀ kept, st.recorded = some kept → Kept P start st.best kept

theorem recorded_width (macros : Nat → SoftMacro) (widths : Nat → Option ℚ) (ids : List Nat) {id : Nat}
    (hid : id ∈ ids) : ids.foldl
      (fun widths id => Function.update widths id (some (macros id).width)) widths id =
      some (macros id).width := by
  induction ids using List.reverseRecOn with
  | nil => exact absurd hid List.not_mem_nil
  | append_singleton ids b ih =>
      rw [List.foldl_append]
      by_cases heq : id = b
      · subst heq
        exact Function.update_self _ _ _
      · have hmem : id ∈ ids := by simpa [heq] using hid
        exact (Function.update_of_ne heq _ _).trans (ih hmem)

theorem RecordInv.update {P : SoftSetup} {st : Annealing} (h : RecordInv P start st)
    (hpacked : PackedPlan st.sa) (hvalid : st.sa.isValid P = true) :
    RecordInv P start (updateBestValidResult st) := by
  refine ⟨h.inv, fun kept hkept => ?_⟩
  obtain rfl : st.sa = kept := Option.some.inj hkept
  exact ⟨h.inv, hpacked, hvalid, rfl, rfl, fun id hid => recorded_width _ _ _ hid⟩

theorem RecordInv.annealOnce {P : SoftSetup} {C : AnnealingCosts} {st st' : Annealing}
    {draw : Choice × ℚ} (h : RecordInv P start st) (hdraw : DrawnFrom start draw.1)
    (hstep : annealOnce P C st draw = some st') : RecordInv P start st' := by
  obtain ⟨sa, hperturb, rfl⟩ := Option.map_eq_some_iff.mp hstep
  obtain ⟨hinv, hpacked, hrestore⟩ := h.inv.perturb hdraw hperturb
  have hfirst : RecordInv P start { st with sa := sa } := ⟨hinv, h.kept⟩
  -- whether the floorplan is recorded, and whether it is accepted
  have hall : ∀ (keep : Bool) (accept : Prop) [Decidable accept] (cost : ℚ), RecordInv P start
      (let st := if sa.isValid P && keep then updateBestValidResult { st with sa := sa }
        else { st with sa := sa }
      if accept then { st with preCost := cost } else { st with sa := sa.restore }) := by
    intro keep accept _ cost
    have hrecord : RecordInv P start (if sa.isValid P && keep then
        updateBestValidResult { st with sa := sa } else { st with sa := sa }) := by
      split
      · exact hfirst.update hpacked (Bool.and_eq_true_iff.mp ‹_›).1
      · exact hfirst
    dsimp only
    split
    · exact ⟨hrecord.inv, hrecord.kept⟩
    · exact ⟨hrestore, hrecord.kept⟩
  exact hall _ _ _

/-- The loops keep the invariant. -/
theorem RecordInv.annealFrom {P : SoftSetup} {C : AnnealingCosts} {maxNumStep step : Nat}
    {st st' : Annealing} {steps : List (List (Choice × ℚ))} (h : RecordInv P start st)
    (hsteps : ∀ draws ∈ steps, ∀ draw ∈ draws, DrawnFrom start draw.1)
    (hrun : annealFrom P C maxNumStep step st steps = some st') : RecordInv P start st' := by
  induction steps generalizing step st with
  | nil => exact Option.some.inj hrun ▸ h
  | cons draws rest ih =>
      obtain ⟨u, hu, hrest⟩ := Option.bind_eq_some_iff.mp hrun
      have hdraws := hsteps draws List.mem_cons_self
      have hinv : RecordInv P start u := by
        have hkeep : ∀ s (draw : Choice × ℚ) s', RecordInv P start s → DrawnFrom start draw.1 →
            SACoreSoftMacro.annealOnce P C s draw = some s' → RecordInv P start s' :=
          fun s draw s' hs hok hs' => RecordInv.annealOnce hs hok hs'
        refine run_invariant hkeep h ?_ hu
        exact (along_true _ draws).imp fun draw hmem _ _ => hdraws draw hmem
      refine ih ?_ (fun draws hmem => hsteps draws (List.mem_cons_of_mem _ hmem)) hrest
      dsimp only
      split
      · exact ⟨(hinv.inv.repack P).1, hinv.kept⟩
      · exact ⟨hinv.inv, hinv.kept⟩

/-! ### The way back -/

/-- The macro with a recorded width. -/
def withWidth (m : SoftMacro) (width : ℚ) : SoftMacro :=
  if m.isMacroCluster then m.setShapeF width (m.getArea / width) else m.setWidth width

theorem run_useWidth {widths : Nat → Option ℚ} {w : Nat → ℚ} (ids : List Nat) (hnodup : ids.Nodup)
    (hwidths : ∀ id ∈ ids, widths id = some (w id)) (macros : Nat → SoftMacro) :
    run (useWidth widths) macros ids =
      some fun id => if id ∈ ids then withWidth (macros id) (w id) else macros id := by
  induction ids generalizing macros with
  | nil => simp
  | cons b ids ih =>
      obtain ⟨hb, hnodup'⟩ := List.nodup_cons.mp hnodup
      have hstep : useWidth widths macros b =
          some (Function.update macros b (withWidth (macros b) (w b))) := by
        unfold useWidth
        rw [hwidths b List.mem_cons_self]
        rfl
      rw [run_cons, hstep, Option.bind_some,
        ih hnodup' fun id hid => hwidths id (List.mem_cons_of_mem b hid)]
      refine congrArg some (funext fun id => ?_)
      by_cases hid : id = b
      · subst hid
        rw [if_neg hb, if_pos List.mem_cons_self, Function.update_self]
      · rw [Function.update_of_ne hid]
        exact if_congr (by simp [hid]) rfl rfl

/-- What a recorded width makes of a macro: its shape from then, for a macro cluster when its area is
that of then. -/
theorem Annealed.withWidth {id : Nat} (hid : id < start.posSeq.length) {m kept : SoftMacro}
    (hm : Annealed start id m) (hkept : Annealed start id kept) :
    (atOrigin (withWidth m kept.width) = atOrigin kept ↔
      (m.isMacroCluster = true → m.getArea = kept.width * kept.height)) ∧
    ((withWidth m kept.width).height = kept.height →
      m.isMacroCluster = true → m.getArea = kept.width * kept.height) := by
  have hpos := (hkept.curved hid).width_pos
  have hproduct := (hkept.curved hid).product
  have hframe : frame m = frame kept := hm.frame_eq.trans hkept.frame_eq.symm
  obtain ⟨hwidths, hheights, hcluster⟩ := frame_intervals hframe
  have hheight : ∀ m' : SoftMacro, (atOrigin m').height = m'.height := by
    rintro ⟨_, _, _, _, _, _, _, _, fixed⟩
    cases fixed <;> rfl
  unfold SACoreSoftMacro.withWidth
  cases hkind : m.isMacroCluster with
  | true =>
      rw [if_pos rfl]
      have harea : m.getArea / kept.width = kept.height → m.getArea = kept.width * kept.height := by
        intro heq
        rw [← heq, mul_div_cancel₀ _ hpos.ne']
      refine ⟨⟨fun heq _ => harea ?_, fun heq => atOrigin_eq_of_frame hframe ?_⟩,
        fun heq _ => harea heq⟩
      · have hsame := congrArg SoftMacro.height heq
        rwa [hheight, hheight] at hsame
      · have hback : m.getArea / kept.width = kept.height := by
          rw [heq rfl, mul_div_cancel_left₀ _ hpos.ne']
        unfold SoftMacro.setShapeF softShape
        dsimp only
        rw [hback, hproduct]
  | false =>
      rw [if_neg Bool.false_ne_true]
      have hkind' : kept.isMacroCluster = false := by
        unfold SoftMacro.isMacroCluster SoftMacro.isOfType at hkind ⊢
        rw [← hcluster]
        exact hkind
      obtain ⟨hcurve, hrigid⟩ := (hm.curved hid).curve hkind
      obtain ⟨hcurve', -⟩ := (hkept.curved hid).curve hkind'
      refine ⟨⟨fun _ hnot => absurd hnot Bool.false_ne_true, fun _ => ?_⟩,
        fun _ hnot => absurd hnot Bool.false_ne_true⟩
      obtain ⟨j, hj, hhas⟩ := hcurve'.onPiece
      have hjm : j ∈ m.widthIntervals := hwidths ▸ hj
      -- the curve has one area
      have harea : m.area = kept.area := by
        have hsame : j.reciprocal m.area = j.reciprocal kept.area := by
          have hmap := hcurve.heights.symm.trans (hheights.trans hcurve'.heights)
          rw [← hwidths] at hmap
          exact List.map_inj_left.mp hmap j hjm
        rw [← (hcurve.proper j hjm).min_mul m.area, hsame, (hcurve.proper j hjm).min_mul]
      rcases SoftMacro.setWidth_cases hcurve kept.width with ⟨hnot, -⟩ | ⟨i, -, v, -, heq, hall⟩
      · rcases hnot with hle | hnot
        · exact absurd hpos (not_lt.mpr hle)
        · exact absurd (hrigid.symm.trans hnot) Bool.false_ne_true
      · rw [heq, hall j hjm hhas]
        refine atOrigin_eq_of_frame hframe ?_
        unfold SoftMacro.moveTo softShape
        dsimp only
        rw [harea, ← hproduct, mul_div_cancel_left₀ _ hpos.ne']

/-- The recorded floorplan comes back exactly when the macro clusters have the areas they had. -/
theorem Kept.useBestValidResult_iff {P Q : SoftSetup} {best : BestValidResult}
    {sa kept : SACoreSoftMacro} (hkept : Kept P start best kept) (hsa : AnnealInv start sa) :
    ∃ sa', useBestValidResult Q best sa = some sa' ∧
      (FloorplanRestored P kept sa' ↔ AreasKept kept sa.macros) := by
  have hnodup : kept.posSeq.Nodup := hkept.inv.posSeq.nodup_iff.mpr List.nodup_range
  have hrun := @run_useWidth best.macroIdToWidth (fun id => (kept.macros id).width)
    kept.posSeq hnodup hkept.width sa.macros
  generalize hmacros : (fun id => if id ∈ kept.posSeq then
    withWidth (sa.macros id) (kept.macros id).width else sa.macros id) = macros at hrun
  have hat : ∀ id, macros id = if id ∈ kept.posSeq then
      withWidth (sa.macros id) (kept.macros id).width else sa.macros id := fun id => by rw [← hmacros]
  refine ⟨calPenalty Q (packFloorplan { sa with
    posSeq := kept.posSeq, negSeq := kept.negSeq, macros := macros }), ?_, ?_⟩
  · unfold useBestValidResult
    rw [hkept.posSequence, hkept.negSequence, hrun]
    rfl
  let core : SimulatedAnnealingCore SoftMacro := { sa.toSimulatedAnnealingCore with
    posSeq := kept.posSeq, negSeq := kept.negSeq, macros := macros }
  have hresult : (calPenalty Q (packFloorplan { sa with
        posSeq := kept.posSeq, negSeq := kept.negSeq, macros := macros })).macros =
      core.packFloorplan.macros ∧ (calPenalty Q (packFloorplan { sa with
        posSeq := kept.posSeq, negSeq := kept.negSeq, macros := macros })).width =
      core.packFloorplan.width ∧ (calPenalty Q (packFloorplan { sa with
        posSeq := kept.posSeq, negSeq := kept.negSeq, macros := macros })).height =
      core.packFloorplan.height := by
    unfold calPenalty
    rw [calNotchPenalty_eq]
    exact ⟨rfl, rfl, rfl⟩
  generalize calPenalty Q (packFloorplan { sa with
    posSeq := kept.posSeq, negSeq := kept.negSeq, macros := macros }) = sa' at hresult
  obtain ⟨hm, hw, hh⟩ := hresult
  have hlt : ∀ id ∈ kept.posSeq, id < start.posSeq.length := fun id hid =>
    hkept.inv.mem_posSeq.mp hid
  constructor
  · intro hrestored id hid
    have hheight : (withWidth (sa.macros id) (kept.macros id).width).height =
        (kept.macros id).height := by
      have hsame := (hrestored.shape id hid).2
      rw [hm] at hsame
      have hpack := packFloorplan_same softShape_setX softShape_setY core id
      have hback : (core.packFloorplan.macros id).height = (macros id).height :=
        congrArg (fun shape => shape.2.1) hpack
      rw [hback, hat, if_pos hid] at hsame
      exact hsame
    exact ((hsa.macros id).withWidth (hlt id hid) (hkept.inv.macros id)).2 hheight
  · intro hareas
    have hsame : SameMacros core.posSeq core.macros kept.macros := by
      intro id
      show if id ∈ kept.posSeq then atOrigin (macros id) = _ else macros id = _
      rw [hat]
      by_cases hid : id ∈ kept.posSeq
      · rw [if_pos hid, if_pos hid]
        exact ((hsa.macros id).withWidth (hlt id hid) (hkept.inv.macros id)).1.mpr (hareas id hid)
      · rw [if_neg hid, if_neg hid]
        have hle : start.posSeq.length ≤ id :=
          Nat.le_of_not_lt fun hlt => hid (hkept.inv.mem_posSeq.mpr hlt)
        exact ((hsa.macros id).other hle).trans ((hkept.inv.macros id).other hle).symm
    obtain ⟨hm', hw', hh'⟩ := @packFloorplan_congr SoftMacro _ _ core
      kept.toSimulatedAnnealingCore rfl rfl hsame
    have hmacros' : sa'.macros = kept.macros := hm.trans (hm'.trans hkept.packed.1)
    have hwidth : sa'.width = kept.width := hw.trans (hw'.trans hkept.packed.2.1)
    have hheight : sa'.height = kept.height := hh.trans (hh'.trans hkept.packed.2.2)
    refine ⟨fun id _ => by rw [hmacros']; exact ⟨rfl, rfl⟩, ⟨hwidth, hheight⟩,
      fun id => by rw [hmacros']; exact ⟨rfl, rfl⟩, ?_⟩
    unfold isValid
    rw [hwidth, hheight]
    exact hkept.valid

/-! ### Runs -/

/-- A floorplan without macros has no extent. -/
theorem packFloorplan_empty {core : SimulatedAnnealingCore SoftMacro} (h : core.posSeq = []) :
    core.packFloorplan.macros = core.macros ∧ core.packFloorplan.width = 0 ∧
      core.packFloorplan.height = 0 := by
  unfold SimulatedAnnealingCore.packFloorplan
  rw [h]
  exact ⟨rfl, rfl, rfl⟩

theorem AnnealStart.inv (h : AnnealStart start) : AnnealInv start start where
  posSeq := h.posSeq
  size := rfl
  macros id := ⟨rfl, fun _ => rfl, fun hid =>
    (h.shaped id (h.posSeq.mem_iff.mpr (List.mem_range.mpr hid))).curved⟩
  empty hsize := by
    have hnil : start.posSeq = [] := List.length_eq_zero_iff.mp (by have := h.length_le; omega)
    obtain ⟨hm, hw, hh⟩ := @packFloorplan_empty start.toSimulatedAnnealingCore hnil
    exact ⟨hm, hw.trans h.plan.1.symm, hh.trans h.plan.2.symm⟩

theorem initializeSA_inv {P : SoftSetup} {choices : List Choice} {sa : SACoreSoftMacro}
    (h : AnnealStart start) (hchoices : ∀ c ∈ choices, DrawnFrom start c)
    (hsome : start.size ≠ 0 → choices ≠ []) (hrun : initializeSA P start choices = some sa) :
    AnnealInv start sa ∧ PackedPlan sa := by
  cases choices with
  | nil =>
      obtain rfl : start = sa := Option.some.inj hrun
      have hsize : start.size = 0 := by
        by_contra hne
        exact hsome hne rfl
      exact ⟨h.inv, h.inv.empty hsize⟩
  | cons c choices =>
      obtain ⟨t, ht, hrest⟩ := Option.bind_eq_some_iff.mp hrun
      obtain ⟨hinv, hpacked, -⟩ := h.inv.perturb (hchoices c List.mem_cons_self) ht
      have hkeep : ∀ s c s', AnnealInv start s ∧ PackedPlan s → DrawnFrom start c →
          SACoreSoftMacro.perturb P s c = some s' → AnnealInv start s' ∧ PackedPlan s' := by
        intro s c s' hs hc hs'
        obtain ⟨hinv', hpacked', -⟩ := hs.1.perturb hc hs'
        exact ⟨hinv', hpacked'⟩
      refine run_invariant hkeep ⟨hinv, hpacked⟩ ?_ hrest
      exact (along_true _ choices).imp fun c hmem _ _ => hchoices c (List.mem_cons_of_mem _ hmem)

theorem anneal_inv {P : SoftSetup} {C : AnnealingCosts} {sa : SACoreSoftMacro}
    {steps : List (List (Choice × ℚ))} {st : Annealing} (hinv : AnnealInv start sa)
    (hpacked : PackedPlan sa) (hsteps : ∀ draws ∈ steps, ∀ draw ∈ draws, DrawnFrom start draw.1)
    (hrun : anneal P C sa steps = some st) : RecordInv P start st := by
  unfold anneal at hrun
  refine RecordInv.annealFrom ?_ hsteps hrun
  split
  · have hfirst : RecordInv P start ⟨sa, {}, C.calNormCost P sa, C.initTemperature, 0, none⟩ :=
      ⟨hinv, fun kept hkept => absurd hkept (by simp)⟩
    exact hfirst.update hpacked ‹_›
  · exact ⟨hinv, fun kept hkept => absurd hkept (by simp)⟩

/-- With the areas of the macro clusters, the annealing ends valid. -/
theorem RecordInv.finishSA_valid {P : SoftSetup} {st : Annealing} {kept : SACoreSoftMacro}
    (h : RecordInv P start st) (hrecorded : st.recorded = some kept)
    (hareas : AreasKept kept st.sa.macros) :
    ∃ sa', finishSA P st = some sa' ∧ sa'.isValid P = true := by
  have hkept := h.kept kept hrecorded
  let Q : SoftSetup := { P with notchWeight := st.notchWeight }
  obtain ⟨hinv, hpacked⟩ := h.inv.repack Q
  have hareas' : AreasKept kept (calPenalty Q (packFloorplan st.sa)).macros := by
    have hmacros : (calPenalty Q (packFloorplan st.sa)).macros =
        st.sa.toSimulatedAnnealingCore.packFloorplan.macros := by
      unfold calPenalty
      rw [calNotchPenalty_eq]
      rfl
    intro id hid hkind
    rw [hmacros] at hkind ⊢
    have hshape := packFloorplan_same softShape_setX softShape_setY
      st.sa.toSimulatedAnnealingCore id
    have hcluster := (frame_intervals (packFloorplan_same frame_setX frame_setY
      st.sa.toSimulatedAnnealingCore id)).2.2
    have harea : (st.sa.toSimulatedAnnealingCore.packFloorplan.macros id).area =
        (st.sa.macros id).area := congrArg (fun shape => shape.2.2) hshape
    unfold SoftMacro.isMacroCluster SoftMacro.isOfType at hkind
    rw [hcluster] at hkind
    unfold SoftMacro.getArea
    rw [harea]
    exact hareas id hid hkind
  unfold finishSA
  dsimp only
  split
  · obtain ⟨sa', huse, hiff⟩ := hkept.useBestValidResult_iff (Q := Q) hinv
    exact ⟨sa', huse, (hiff.mpr hareas').valid⟩
  · rename_i hnot
    refine ⟨_, rfl, ?_⟩
    rw [Bool.and_eq_true, Bool.not_eq_true', not_and_or] at hnot
    rcases hnot with hvalid | hempty
    · exact Bool.not_eq_false _ ▸ hvalid
    · -- a floorplan without macros is as good as the one that was recorded
      have hnil : kept.posSeq = [] := by
        rw [← hkept.posSequence]
        simpa using hempty
      have hnil' : (calPenalty Q (packFloorplan st.sa)).posSeq = [] := by
        refine List.length_eq_zero_iff.mp ?_
        rw [hinv.length_posSeq, ← hkept.inv.length_posSeq, hnil]
        rfl
      obtain ⟨-, hw, hh⟩ := @packFloorplan_empty kept.toSimulatedAnnealingCore hnil
      obtain ⟨-, hw', hh'⟩ := @packFloorplan_empty
        (calPenalty Q (packFloorplan st.sa)).toSimulatedAnnealingCore hnil'
      have hvalid := hkept.valid
      unfold isValid at hvalid ⊢
      rw [← hkept.packed.2.1, ← hkept.packed.2.2, hw, hh] at hvalid
      rw [← hpacked.2.1, ← hpacked.2.2, hw', hh']
      exact hvalid

/-- After any annealing that recorded a valid floorplan, the record brings it back exactly when the
macro clusters have the areas they had then; in that case the annealing ends valid. -/
theorem fastSA_best_iff (P : SoftSetup) (C : AnnealingCosts) (start sa : SACoreSoftMacro)
    (hstart : AnnealStart start) (choices : List Choice) (hchoices : ∀ c ∈ choices, DrawnFrom start c)
    (hsome : start.size ≠ 0 → choices ≠ []) (hinit : initializeSA P start choices = some sa)
    (steps : List (List (Choice × ℚ)))
    (hsteps : ∀ draws ∈ steps, ∀ draw ∈ draws, DrawnFrom start draw.1) (st : Annealing)
    (hrun : anneal P C sa steps = some st) (kept : SACoreSoftMacro)
    (hrecorded : st.recorded = some kept) :
    ((∃ sa', useBestValidResult P st.best st.sa = some sa' ∧ FloorplanRestored P kept sa') ↔
      AreasKept kept st.sa.macros) ∧
    (AreasKept kept st.sa.macros →
      ∃ sa', fastSA P C sa steps = some sa' ∧ sa'.isValid P = true) := by
  obtain ⟨hinv, hpacked⟩ := initializeSA_inv hstart hchoices hsome hinit
  have hst := anneal_inv hinv hpacked hsteps hrun
  obtain ⟨sa', huse, hiff⟩ := (hst.kept kept hrecorded).useBestValidResult_iff (Q := P) hst.inv
  refine ⟨⟨?_, fun hareas => ⟨sa', huse, hiff.mpr hareas⟩⟩, fun hareas => ?_⟩
  · rintro ⟨sa'', huse', hrestored⟩
    obtain rfl := Option.some.inj (huse.symm.trans huse')
    exact hiff.mp hrestored
  · obtain ⟨sa'', hfinish, hvalid⟩ := hst.finishSA_valid hrecorded hareas
    refine ⟨sa'', ?_, hvalid⟩
    unfold fastSA
    rw [hrun]
    exact hfinish

end Invariant

/-! ### A macro cluster with two tilings -/

def narrowSetup : SoftSetup :=
  { notchSetup with outline := ⟨0, 0, 4, 4⟩, posSwapProb := 1 / 2, notchWeight := 0 }

def freeCosts : AnnealingCosts := ⟨fun _ _ => 0, fun _ _ => 1, 1, 1 / 2⟩

def oneMacroCluster : SoftMacro :=
  ⟨0, 0, 0, 0, 0, [], [], some ⟨.HardMacroCluster, false, false, .NONE, 0, 0, 0⟩, false⟩

/-- One macro cluster, with the tilings two by three and `other`. -/
def tiled (other : ℚ × ℚ) : SACoreSoftMacro :=
  { posSeq := [0], negSeq := [0], size := 1
    macros := fun _ => oneMacroCluster.setTilings [(2, 3), other] false
    preMacros := fun _ => oneMacroCluster.setTilings [(2, 3), other] false }

/-- A swap, which leaves one macro where it is. -/
def noSwap : Choice := ⟨0, 0, 0, 0, 0, 0, 0, 0⟩

/-- The resize to the other tiling. -/
def toOther : Choice := ⟨1, 0, 0, 0, 1, 0, 0, 0⟩

theorem annealStart_tiled {w h : ℚ} (hpos : 0 < w ∧ 0 < h) : AnnealStart (tiled (w, h)) where
  posSeq := List.Perm.refl _
  length_le := le_refl 1
  shaped := fun id hid => by
    refine @Shaped.tilings oneMacroCluster [(2, 3), (w, h)] false rfl rfl (by decide)
      (List.cons_ne_nil _ _) fun tiling htiling => ?_
    rcases List.mem_cons.mp htiling with rfl | htiling
    · exact ⟨by decide, by decide⟩
    · rw [List.mem_singleton.mp htiling]
      exact hpos
  plan := ⟨rfl, rfl⟩

theorem drawnFrom_tiled {other : ℚ × ℚ} {c : Choice} (hc : c = noSwap ∨ c = toOther) :
    DrawnFrom (tiled other) c := by
  rcases hc with rfl | rfl
  · exact ⟨Nat.zero_lt_one, Nat.zero_lt_two, le_refl 0, zero_le_one⟩
  · exact ⟨Nat.zero_lt_one, Nat.one_lt_two, le_refl 0, zero_le_one⟩

/-- The annealer after its initialisation, and after one accepted resize to the other tiling. -/
def tiledStart (other : ℚ × ℚ) : SACoreSoftMacro :=
  (initializeSA narrowSetup (tiled other) [noSwap]).getD (tiled other)

theorem initializeSA_tiled {other : ℚ × ℚ}
    (h : (initializeSA narrowSetup (tiled other) [noSwap]).isSome = true) :
    initializeSA narrowSetup (tiled other) [noSwap] = some (tiledStart other) := by
  obtain ⟨sa, hsa⟩ := Option.isSome_iff_exists.mp h
  rw [tiledStart, hsa]
  rfl

def tiledRun (other : ℚ × ℚ) : Option Annealing :=
  anneal narrowSetup freeCosts (tiledStart other) [[(toOther, 0)]]

/-- With a tiling of the same area, the first one comes back. -/
theorem fastSA_best_iff_sameArea : ∃ st kept, tiledRun (6, 1) = some st ∧ st.recorded = some kept ∧
    ∃ sa', useBestValidResult narrowSetup st.best st.sa = some sa' ∧
      FloorplanRestored narrowSetup kept sa' := by
  obtain ⟨st, hrun⟩ : ∃ st, tiledRun (6, 1) = some st := Option.isSome_iff_exists.mp (by decide +kernel)
  obtain ⟨kept, hkept⟩ : ∃ kept, st.recorded = some kept := by
    refine Option.isSome_iff_exists.mp ?_
    have hsome : (tiledRun (6, 1)).all (fun st => st.recorded.isSome) = true := by decide +kernel
    simpa [hrun] using hsome
  refine ⟨st, kept, hrun, hkept, ?_⟩
  refine (fastSA_best_iff narrowSetup freeCosts (tiled (6, 1)) (tiledStart (6, 1))
    (annealStart_tiled ⟨by decide, by decide⟩) [noSwap]
    (fun c hc => drawnFrom_tiled (Or.inl (List.mem_singleton.mp hc)))
    (fun _ => List.cons_ne_nil _ _) (initializeSA_tiled (by decide +kernel)) [[(toOther, 0)]]
    (fun draws hdraws draw hdraw => drawnFrom_tiled (Or.inr ?_)) st hrun kept hkept).1.mpr ?_
  · rw [List.mem_singleton.mp hdraws] at hdraw
    rw [List.mem_singleton.mp hdraw]
  · have hareas : (tiledRun (6, 1)).all (fun st => st.recorded.all fun kept =>
        kept.posSeq.all fun id => (st.sa.macros id).getArea =
          (kept.macros id).width * (kept.macros id).height) = true := by decide +kernel
    rw [hrun] at hareas
    simp only [Option.all_some, hkept, List.all_eq_true, decide_eq_true_eq] at hareas
    exact fun id hid _ => hareas id hid

/-- A macro cluster recorded as two by three comes back two by ten, after it was four by five. -/
theorem not_fastSA_restores_best :
    ¬∀ (P : SoftSetup) (C : AnnealingCosts) (start sa : SACoreSoftMacro), AnnealStart start →
      ∀ choices : List Choice, (∀ c ∈ choices, DrawnFrom start c) →
      (start.size ≠ 0 → choices ≠ []) → initializeSA P start choices = some sa →
      ∀ steps : List (List (Choice × ℚ)), (∀ draws ∈ steps, ∀ draw ∈ draws, DrawnFrom start draw.1) →
      ∀ st, anneal P C sa steps = some st → ∀ kept, st.recorded = some kept →
        ((∃ sa', useBestValidResult P st.best st.sa = some sa' ∧ FloorplanRestored P kept sa') ∧
          ∃ sa', fastSA P C sa steps = some sa' ∧ sa'.isValid P = true) := by
  intro hall
  obtain ⟨st, hrun⟩ : ∃ st, tiledRun (4, 5) = some st := Option.isSome_iff_exists.mp (by decide +kernel)
  obtain ⟨kept, hkept⟩ : ∃ kept, st.recorded = some kept := by
    refine Option.isSome_iff_exists.mp ?_
    have hsome : (tiledRun (4, 5)).all (fun st => st.recorded.isSome) = true := by decide +kernel
    simpa [hrun] using hsome
  obtain ⟨-, sa', hsa', hvalid⟩ := hall narrowSetup freeCosts (tiled (4, 5)) (tiledStart (4, 5))
    (annealStart_tiled ⟨by decide, by decide⟩) [noSwap]
    (fun c hc => drawnFrom_tiled (Or.inl (List.mem_singleton.mp hc)))
    (fun _ => List.cons_ne_nil _ _) (initializeSA_tiled (by decide +kernel)) [[(toOther, 0)]]
    (fun draws hdraws draw hdraw => drawnFrom_tiled (Or.inr (by
      rw [List.mem_singleton.mp hdraws] at hdraw
      rw [List.mem_singleton.mp hdraw]))) st hrun kept hkept
  have hinvalid : (fastSA narrowSetup freeCosts (tiledStart (4, 5)) [[(toOther, 0)]]).all
      (fun sa => !sa.isValid narrowSetup) = true := by decide +kernel
  rw [hsa', Option.all_some, hvalid] at hinvalid
  exact Bool.false_ne_true hinvalid

end SACoreSoftMacro

end OpenRoad.Mpl
