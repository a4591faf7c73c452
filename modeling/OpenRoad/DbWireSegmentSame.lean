import OpenRoad.DbWireWay
import Mathlib.Tactic.IntervalCases

/-!
Where the two overloads of `getSegment` agree. They read different extensions where a via lies between
the two points, and different widths where a rule is passed on the way from the points to the layer.
-/

namespace OpenRoad.Db
open WireOp StopFold

/-! ### Entries of the way -/

def isVia (entry : WireEntry) : Bool :=
  WireOp.ofOpcode entry.1 == some WOP_VIA || WireOp.ofOpcode entry.1 == some WOP_TECH_VIA

def isJunctionEntry (entry : WireEntry) : Bool := WireOp.ofOpcode entry.1 == some WOP_JUNCTION

/-- The layer that the second loop takes from an entry. -/
def segmentLayerOf (tech : DbTech) (entry : WireEntry) : Option Nat :=
  if WireOp.ofOpcode entry.1 = some WOP_VWIRE then some entry.2.toNat else layerOf tech entry

def ruleOf (tech : DbTech) (entry : WireEntry) : Option Nat :=
  if WireOp.ofOpcode entry.1 = some WOP_RULE then some (ruleWidth tech entry) else none

/-- The state of the machine after an entry. -/
def stateAfter (state : Nat) (entry : Nat × WireEntry) : Nat :=
  match coordInput entry.2 with
  | some input => input.next state
  | none => state

variable (tech : DbTech)

def firstRuleOf (back : List (Nat × WireEntry)) : Option Nat := back.findSome? fun e => ruleOf tech e.2

def lastRuleOf (back : List (Nat × WireEntry)) : Option Nat :=
  back.foldl (fun last e => (ruleOf tech e.2).or last) none

/-- The way back starts with entries that are no points and no junctions, and then has a point with an
extension. -/
def Between (back mid : List (Nat × WireEntry)) (pnt : Nat × WireEntry) : Prop :=
  ∃ rest, back = mid ++ pnt :: rest ∧
    (∀ e ∈ mid, coordInput e.2 = none ∧ isJunctionEntry e.2 = false) ∧ coordInput pnt.2 ≠ none ∧
      hasFlag pnt.2.1 WOP_EXTENSION = true

/-- There is a via before that point. -/
def ViaBeforeExtension (back : List (Nat × WireEntry)) : Prop :=
  ∃ mid pnt, Between back mid pnt ∧ ∃ e ∈ mid, isVia e.2 = true

/-- The width of the last rule that is passed between where both points are known and where the layer
is. No rule is passed where a via gives the layer before. -/
def RulePassed (back : List (Nat × WireEntry)) (width : Nat) : Prop :=
  ∃ taken rest, back = taken ++ rest ∧ runUntil (· == 13) stateAfter 0 back = some (13, rest) ∧
    (∀ e ∈ taken, isVia e.2 = false) ∧
    lastRuleOf tech (rest.takeWhile fun e => (segmentLayerOf tech e.2).isNone) = some width

/-- The way back from a point on which both overloads find the same. -/
structure SameSegment (back : List (Nat × WireEntry)) : Prop where
  extension : ¬ViaBeforeExtension back.tail
  width : ∀ e ∈ back.head?, hasFlag e.2.1 WOP_DEFAULT_WIDTH = false → ∀ first passed,
    firstRuleOf tech back = some first → RulePassed tech back passed → passed / 2 = first / 2

/-! ### The extension of the previous point -/

section Extension

variable {back mid : List (Nat × WireEntry)} {e pnt : Nat × WireEntry}

theorem not_between_nil : ¬Between [] mid pnt := by
  rintro ⟨rest, heq, -⟩
  cases mid <;> cases heq

theorem between_point (hpoint : coordInput e.2 ≠ none) : Between (e :: back) mid pnt ↔
    mid = [] ∧ pnt = e ∧ hasFlag e.2.1 WOP_EXTENSION = true := by
  constructor
  · rintro ⟨rest, heq, hmid, -, hflag⟩
    cases mid with
    | nil =>
        obtain ⟨rfl, -⟩ := List.cons.inj heq
        exact ⟨rfl, rfl, hflag⟩
    | cons e' mid =>
        obtain ⟨rfl, -⟩ := List.cons.inj heq
        exact absurd (hmid e List.mem_cons_self).1 hpoint
  · rintro ⟨rfl, rfl, hflag⟩
    exact ⟨back, rfl, by simp, hpoint, hflag⟩

theorem not_between_junction (hpoint : coordInput e.2 = none) (hjunction : isJunctionEntry e.2 = true) :
    ¬Between (e :: back) mid pnt := by
  rintro ⟨rest, heq, hmid, hpnt, -⟩
  cases mid with
  | nil =>
      obtain ⟨rfl, -⟩ := List.cons.inj heq
      exact hpnt hpoint
  | cons e' mid =>
      obtain ⟨rfl, -⟩ := List.cons.inj heq
      rw [(hmid e List.mem_cons_self).2] at hjunction
      cases hjunction

theorem between_skip (hpoint : coordInput e.2 = none) (hjunction : isJunctionEntry e.2 = false) :
    Between (e :: back) mid pnt ↔ ∃ mid', mid = e :: mid' ∧ Between back mid' pnt := by
  constructor
  · rintro ⟨rest, heq, hmid, hpnt⟩
    cases mid with
    | nil =>
        obtain ⟨rfl, -⟩ := List.cons.inj heq
        exact absurd hpoint hpnt.1
    | cons e' mid =>
        obtain ⟨rfl, rfl⟩ := List.cons.inj heq
        exact ⟨mid, rfl, rest, rfl, fun e' he' => hmid e' (List.mem_cons_of_mem _ he'), hpnt⟩
  · rintro ⟨mid', rfl, rest, rfl, hmid, hpnt⟩
    refine ⟨rest, rfl, fun e' he' => ?_, hpnt⟩
    rcases List.mem_cons.mp he' with rfl | he'
    · exact ⟨hpoint, hjunction⟩
    · exact hmid e' he'

/-- The index of the extension that is read, where some entries have it ignored. -/
def readsExt (ignored : WireEntry → Bool) : List (Nat × WireEntry) → Option Nat
  | [] => none
  | e :: back =>
      if coordInput e.2 ≠ none then if hasFlag e.2.1 WOP_EXTENSION then some e.1 else none
      else if ignored e.2 then none else readsExt ignored back

theorem readsExt_junction : readsExt isJunctionEntry back ≠ none ↔ ∃ mid pnt, Between back mid pnt := by
  induction back with
  | nil => simp [readsExt, not_between_nil]
  | cons e back ih =>
      rw [readsExt]
      by_cases hpoint : coordInput e.2 = none
      · rw [if_neg (not_not.mpr hpoint)]
        cases hjunction : isJunctionEntry e.2 with
        | true => simp [not_between_junction hpoint hjunction]
        | false =>
            rw [if_neg Bool.false_ne_true, ih]
            constructor
            · rintro ⟨mid, pnt, h⟩
              exact ⟨e :: mid, pnt, (between_skip hpoint hjunction).mpr ⟨mid, rfl, h⟩⟩
            · rintro ⟨mid, pnt, h⟩
              obtain ⟨mid', -, h'⟩ := (between_skip hpoint hjunction).mp h
              exact ⟨mid', pnt, h'⟩
      · rw [if_pos hpoint]
        simp [between_point hpoint]

/-- Where vias have the extension ignored as well, another one is read or none. -/
theorem readsExt_ne_iff :
    readsExt (fun e => isJunctionEntry e || isVia e) back ≠ readsExt isJunctionEntry back ↔
      ViaBeforeExtension back := by
  unfold ViaBeforeExtension
  induction back with
  | nil => simp [readsExt, not_between_nil]
  | cons e back ih =>
      rw [readsExt, readsExt]
      by_cases hpoint : coordInput e.2 = none
      · rw [if_neg (not_not.mpr hpoint), if_neg (not_not.mpr hpoint)]
        cases hjunction : isJunctionEntry e.2 with
        | true => simp [not_between_junction hpoint hjunction]
        | false =>
            rw [if_neg Bool.false_ne_true, Bool.false_or]
            cases hvia : isVia e.2 with
            | true =>
                rw [if_pos rfl]
                refine ne_comm.trans (readsExt_junction.trans ?_)
                constructor
                · rintro ⟨mid, pnt, h⟩
                  exact ⟨e :: mid, pnt, (between_skip hpoint hjunction).mpr ⟨mid, rfl, h⟩, e,
                    List.mem_cons_self, hvia⟩
                · rintro ⟨mid, pnt, h, -⟩
                  obtain ⟨mid', -, h'⟩ := (between_skip hpoint hjunction).mp h
                  exact ⟨mid', pnt, h'⟩
            | false =>
                rw [if_neg Bool.false_ne_true, ih]
                constructor
                · rintro ⟨mid, pnt, h, v, hv, hisVia⟩
                  exact ⟨e :: mid, pnt, (between_skip hpoint hjunction).mpr ⟨mid, rfl, h⟩, v,
                    List.mem_cons_of_mem _ hv, hisVia⟩
                · rintro ⟨mid, pnt, h, v, hv, hisVia⟩
                  obtain ⟨mid', rfl, h'⟩ := (between_skip hpoint hjunction).mp h
                  rcases List.mem_cons.mp hv with rfl | hv
                  · rw [hvia] at hisVia
                    cases hisVia
                  · exact ⟨mid', pnt, h', v, hv, hisVia⟩
      · rw [if_pos hpoint, if_pos hpoint]
        simp [between_point hpoint]

/-- With vias ignored nothing is read, or the same. -/
theorem readsExt_or (back : List (Nat × WireEntry)) :
    readsExt (fun e => isJunctionEntry e || isVia e) back = none ∨
      readsExt (fun e => isJunctionEntry e || isVia e) back = readsExt isJunctionEntry back := by
  induction back with
  | nil => exact Or.inl rfl
  | cons e back ih =>
      rw [readsExt, readsExt]
      by_cases hpoint : coordInput e.2 = none
      · rw [if_neg (not_not.mpr hpoint), if_neg (not_not.mpr hpoint)]
        cases isJunctionEntry e.2 with
        | true => exact Or.inl rfl
        | false =>
            cases isVia e.2 with
            | true => exact Or.inl rfl
            | false => exact ih
      · rw [if_pos hpoint, if_pos hpoint]
        exact Or.inr rfl

end Extension

/-! ### The states -/

theorem next_ge {state : Nat} (h : 4 ≤ state) (input : CoordInput) : 4 ≤ input.next state := by
  by_cases hlt : state < 13
  · interval_cases state <;> cases input <;> decide
  · unfold CoordInput.next
    rw [List.getD_eq_getElem?_getD, List.getElem?_eq_none (Nat.not_lt.mp hlt)]
    cases input <;> decide

theorem next_ge_of_le {state : Nat} (hpos : 1 ≤ state) (hle : state ≤ 3) (input : CoordInput) :
    4 ≤ input.next state := by
  interval_cases state <;> cases input <;> decide

theorem next_zero (input : CoordInput) : 1 ≤ input.next 0 ∧ input.next 0 ≤ 3 := by
  cases input <;> decide

/-! ### One entry -/

namespace SegmentWalk

variable {tech} {ops : List WireEntry}

/-- What both overloads do alike. -/
def core (w : SegmentWalk) : SegmentWalk :=
  { w with curExt := 0, hasCurExt := false, ignoreExt := false, layer := none }

theorem core_update (w : SegmentWalk) (idx : Nat) (entry : WireEntry) (input : CoordInput) :
    (w.core.update ops idx entry input).core = (w.update ops idx entry input).core := by
  unfold update readFlags core
  dsimp only
  split_ifs <;> rfl

theorem core_firstRule (w : SegmentWalk) (entry : WireEntry) :
    (w.core.firstRule tech entry).core = (w.firstRule tech entry).core := by
  unfold firstRule core
  dsimp only
  split_ifs <;> rfl

theorem core_firstLayer (w : SegmentWalk) (layer : Nat) : (w.firstLayer layer).core = w.core := by
  unfold firstLayer
  split_ifs <;> rfl

theorem core_visitOnLayer (w : SegmentWalk) (idx : Nat) (entry : WireEntry) :
    (w.core.visitOnLayer tech ops idx entry).core = (w.visitOnLayer tech ops idx entry).core := by
  unfold visitOnLayer
  split <;> first | exact core_update .. | exact core_firstRule .. | rfl

theorem core_visit (w : SegmentWalk) (idx : Nat) (entry : WireEntry) :
    (w.core.visitOnLayer tech ops idx entry).core = (w.visit tech ops idx entry).core := by
  rw [core_visitOnLayer]
  unfold visit visitOnLayer
  cases WireOp.ofOpcode entry.1 with
  | none => rfl
  | some op => cases op <;> first | rfl | exact (core_firstLayer w _).symm

/-- What an entry that is no point does to the fields of the extension. -/
structure Passes (v : SegmentWalk → Nat → WireEntry → SegmentWalk) (ops : List WireEntry)
    (ignored : WireEntry → Bool) : Prop where
  point : ∀ w idx entry input, coordInput entry = some input →
    v w idx entry = w.update ops idx entry input
  other : ∀ w idx entry, coordInput entry = none → (v w idx entry).state = w.state ∧
    (v w idx entry).curExt = w.curExt ∧ (v w idx entry).hasCurExt = w.hasCurExt ∧
      (v w idx entry).ignoreExt = (w.ignoreExt || ignored entry)

theorem passes_visitOnLayer : Passes (visitOnLayer tech ops) ops isJunctionEntry where
  point := by
    intro w idx entry input hinput
    unfold coordInput at hinput
    unfold visitOnLayer
    split at hinput <;> cases hinput <;> simp only [*]
  other := by
    intro w idx entry hnone
    unfold coordInput at hnone
    unfold visitOnLayer isJunctionEntry firstRule
    cases hop : WireOp.ofOpcode entry.1 with
    | none => simp
    | some op => cases op <;> (simp_all; try split_ifs <;> simp)

theorem passes_visit : Passes (visit tech ops) ops fun entry => isJunctionEntry entry || isVia entry where
  point := by
    intro w idx entry input hinput
    unfold coordInput at hinput
    unfold visit
    split at hinput <;> cases hinput <;> simp only [*]
  other := by
    intro w idx entry hnone
    unfold coordInput at hnone
    unfold visit isJunctionEntry isVia firstRule firstLayer
    cases hop : WireOp.ofOpcode entry.1 with
    | none => simp
    | some op => cases op <;> simp_all <;> split_ifs <;> simp

/-! ### The extension after the first loop -/

@[simp] theorem state_readFlags (w : SegmentWalk) (idx : Nat) (entry : WireEntry) :
    (w.readFlags ops idx entry).state = w.state := by
  unfold readFlags
  dsimp only
  split_ifs <;> rfl

theorem state_update (w : SegmentWalk) (idx : Nat) (entry : WireEntry) (input : CoordInput) :
    (w.update ops idx entry input).state = input.next w.state := by
  change input.next (w.readFlags ops idx entry).state = _
  rw [state_readFlags]

/-- The extension and whether there is one. -/
def ext (w : SegmentWalk) : Int × Bool := (w.curExt, w.hasCurExt)

theorem ext_update_of_ge {w : SegmentWalk} (h : 4 ≤ w.state) (idx : Nat) (entry : WireEntry)
    (input : CoordInput) : (w.update ops idx entry input).ext = w.ext := by
  change (w.readFlags ops idx entry).ext = w.ext
  unfold readFlags
  rw [if_neg (show ¬w.state = 0 by omega), if_neg fun hle => absurd hle.1 (show ¬w.state ≤ 3 by omega)]

theorem ext_update_of_le {w : SegmentWalk} (hpos : 1 ≤ w.state) (hle : w.state ≤ 3) (idx : Nat)
    (entry : WireEntry) (input : CoordInput) : (w.update ops idx entry input).ext =
      if hasFlag entry.1 WOP_EXTENSION ∧ w.ignoreExt = false then (extAt ops idx, true) else w.ext := by
  change (w.readFlags ops idx entry).ext = _
  unfold readFlags
  rw [if_neg (show ¬w.state = 0 by omega)]
  by_cases h : hasFlag entry.1 WOP_EXTENSION ∧ w.ignoreExt = false
  · rw [if_pos h, if_pos ⟨hle, h⟩]
    rfl
  · rw [if_neg h, if_neg fun hall => h hall.2]

variable {v : SegmentWalk → Nat → WireEntry → SegmentWalk} {ignored : WireEntry → Bool}
  {w t : SegmentWalk} {back rest : List (Nat × WireEntry)}

/-- Past the previous point no extension is read. -/
theorem ext_run_of_ge (hv : Passes v ops ignored) (hstate : 4 ≤ w.state)
    (h : runUntil (fun w => w.state == 13) (fun w e => v w e.1 e.2) w back = some (t, rest)) :
    t.ext = w.ext := by
  induction back generalizing w with
  | nil =>
      unfold runUntil at h
      split_ifs at h
      obtain ⟨rfl, -⟩ := Prod.mk.inj (Option.some.inj h)
      rfl
  | cons e back ih =>
      unfold runUntil at h
      split_ifs at h
      · obtain ⟨rfl, -⟩ := Prod.mk.inj (Option.some.inj h)
        rfl
      · cases hinput : coordInput e.2 with
        | some input =>
            rw [hv.point w e.1 e.2 input hinput] at h
            exact (ih (by rw [state_update]; exact next_ge hstate input) h).trans
              (ext_update_of_ge hstate e.1 e.2 input)
        | none =>
            obtain ⟨hsame, hcur, hhas, -⟩ := hv.other w e.1 e.2 hinput
            exact (ih (hsame ▸ hstate) h).trans (Prod.ext hcur hhas)

/-- The extension that is read is the one of the previous point, if it is not ignored. -/
theorem ext_run_of_le (hv : Passes v ops ignored) (hpos : 1 ≤ w.state) (hle : w.state ≤ 3)
    (h : runUntil (fun w => w.state == 13) (fun w e => v w e.1 e.2) w back = some (t, rest)) :
    t.ext = ((if w.ignoreExt then none else readsExt ignored back).map
      fun i => (extAt ops i, true)).getD w.ext := by
  induction back generalizing w with
  | nil =>
      unfold runUntil at h
      rw [if_neg (by simp; omega)] at h
      cases h
  | cons e back ih =>
      rw [runUntil_cons (by simp; omega)] at h
      rw [readsExt]
      cases hinput : coordInput e.2 with
      | some input =>
          rw [hv.point w e.1 e.2 input hinput] at h
          rw [ext_run_of_ge hv (by rw [state_update]; exact next_ge_of_le hpos hle input) h,
            ext_update_of_le hpos hle, if_pos (Option.some_ne_none _)]
          cases w.ignoreExt <;> cases hasFlag e.2.1 WOP_EXTENSION <;> rfl
      | none =>
          obtain ⟨hsame, hcur, hhas, hignore⟩ := hv.other w e.1 e.2 hinput
          rw [ih (hsame ▸ hpos) (hsame ▸ hle) h, hignore, if_neg (not_not.mpr rfl)]
          have hext : (v w e.1 e.2).ext = w.ext := Prod.ext hcur hhas
          rw [hext]
          cases w.ignoreExt <;> cases ignored e.2 <;> rfl

/-! ### The width and the layer after the first loop -/

/-- The width, or that of the first rule that is still to come. -/
def base (tech : DbTech) (w : SegmentWalk) (back : List (Nat × WireEntry)) : Option Nat :=
  if w.foundWidth then some w.width else firstRuleOf tech back

theorem width_update {w : SegmentWalk} (h : w.state ≠ 0) (idx : Nat) (entry : WireEntry)
    (input : CoordInput) : (w.update ops idx entry input).foundWidth = w.foundWidth ∧
      (w.update ops idx entry input).width = w.width ∧
        (w.update ops idx entry input).defaultWidth = w.defaultWidth := by
  unfold update readFlags
  dsimp only
  rw [if_neg h]
  split_ifs <;> exact ⟨rfl, rfl, rfl⟩

theorem layer_update (w : SegmentWalk) (idx : Nat) (entry : WireEntry) (input : CoordInput) :
    (w.update ops idx entry input).layer = w.layer := by
  unfold update readFlags
  dsimp only
  split_ifs <;> rfl

theorem isSome_firstLayer (w : SegmentWalk) (layer : Nat) : (w.firstLayer layer).layer.isSome = true := by
  unfold firstLayer
  split_ifs with h
  · rfl
  · exact Option.isSome_iff_ne_none.mpr h

theorem state_visit (w : SegmentWalk) (e : Nat × WireEntry) :
    (w.visit tech ops e.1 e.2).state = stateAfter w.state e := by
  unfold stateAfter
  cases hinput : coordInput e.2 with
  | some input => rw [passes_visit.point w e.1 e.2 input hinput, state_update]
  | none => exact (passes_visit.other w e.1 e.2 hinput).1

theorem stateAfter_ne_zero {state : Nat} (h : state ≠ 0) (e : Nat × WireEntry) :
    stateAfter state e ≠ 0 := by
  unfold stateAfter
  cases coordInput e.2 with
  | none => exact h
  | some input =>
      by_cases hle : state ≤ 3
      · exact Nat.ne_of_gt (Nat.lt_of_lt_of_le (by omega) (next_ge_of_le (by omega) hle input))
      · exact Nat.ne_of_gt (Nat.lt_of_lt_of_le (by omega) (next_ge (by omega) input))

/-- The first rule is kept, or still to come. -/
theorem base_visit {w : SegmentWalk} (h : w.state ≠ 0) (e : Nat × WireEntry)
    (back : List (Nat × WireEntry)) :
    (w.visit tech ops e.1 e.2).base tech back = w.base tech (e :: back) ∧
      (w.visit tech ops e.1 e.2).defaultWidth = w.defaultWidth := by
  have hkeep : ∀ u : SegmentWalk, u.foundWidth = w.foundWidth → u.width = w.width →
      u.defaultWidth = w.defaultWidth → ruleOf tech e.2 = none →
      u.base tech back = w.base tech (e :: back) ∧ u.defaultWidth = w.defaultWidth := by
    intro u hfound hwidth hdefault hno
    refine ⟨?_, hdefault⟩
    unfold base firstRuleOf
    rw [hfound, hwidth, List.findSome?_cons, hno]
  have hupdate : ∀ input, ruleOf tech e.2 = none →
      (w.update ops e.1 e.2 input).base tech back = w.base tech (e :: back) ∧
        (w.update ops e.1 e.2 input).defaultWidth = w.defaultWidth := by
    intro input hno
    obtain ⟨hfound, hwidth, hdefault⟩ := @width_update ops w h e.1 e.2 input
    exact hkeep _ hfound hwidth hdefault hno
  unfold visit
  cases hop : WireOp.ofOpcode e.2.1 with
  | none => exact hkeep w rfl rfl rfl (by simp [ruleOf, hop])
  | some op =>
      have hlayer : ∀ layer, (w.firstLayer layer).foundWidth = w.foundWidth ∧
          (w.firstLayer layer).width = w.width ∧ (w.firstLayer layer).defaultWidth = w.defaultWidth := by
        intro layer
        unfold firstLayer
        split_ifs <;> exact ⟨rfl, rfl, rfl⟩
      cases op <;> dsimp only
      case WOP_X => exact hupdate _ (by simp [ruleOf, hop])
      case WOP_Y => exact hupdate _ (by simp [ruleOf, hop])
      case WOP_COLINEAR => exact hupdate _ (by simp [ruleOf, hop])
      case WOP_VIA => exact hkeep _ (hlayer _).1 (hlayer _).2.1 (hlayer _).2.2 (by simp [ruleOf, hop])
      case WOP_TECH_VIA =>
        exact hkeep _ (hlayer _).1 (hlayer _).2.1 (hlayer _).2.2 (by simp [ruleOf, hop])
      case WOP_RULE =>
        have hrule : ruleOf tech e.2 = some (ruleWidth tech e.2) := by simp [ruleOf, hop]
        unfold firstRule base firstRuleOf
        rw [List.findSome?_cons, hrule]
        cases hfound : w.foundWidth <;> simp [hfound]
      all_goals exact hkeep _ rfl rfl rfl (by simp [ruleOf, hop])

theorem base_run (h : w.state ≠ 0)
    (hrun : runUntil (fun w => w.state == 13) (fun w e => visit tech ops w e.1 e.2) w back =
      some (t, rest)) :
    t.base tech rest = w.base tech back ∧ t.defaultWidth = w.defaultWidth := by
  induction back generalizing w with
  | nil =>
      unfold runUntil at hrun
      split_ifs at hrun
      obtain ⟨rfl, rfl⟩ := Prod.mk.inj (Option.some.inj hrun)
      exact ⟨rfl, rfl⟩
  | cons e back ih =>
      unfold runUntil at hrun
      split_ifs at hrun
      · obtain ⟨rfl, rfl⟩ := Prod.mk.inj (Option.some.inj hrun)
        exact ⟨rfl, rfl⟩
      · obtain ⟨hbase, hdefault⟩ := ih (by rw [state_visit]; exact stateAfter_ne_zero h e) hrun
        obtain ⟨hbase', hdefault'⟩ := @base_visit tech ops w h e back
        exact ⟨hbase.trans hbase', hdefault.trans hdefault'⟩

/-- A layer is known after a via. -/
theorem isSome_layer_visit (w : SegmentWalk) (e : Nat × WireEntry) :
    (w.visit tech ops e.1 e.2).layer.isSome = (w.layer.isSome || isVia e.2) := by
  unfold visit isVia
  cases hop : WireOp.ofOpcode e.2.1 with
  | none => simp
  | some op =>
      cases op <;> simp [layer_update, isSome_firstLayer]
      unfold firstRule
      split_ifs <;> exact (Bool.or_false _).symm

theorem isSome_layer_foldl (w : SegmentWalk) (taken : List (Nat × WireEntry)) :
    (taken.foldl (fun w e => visit tech ops w e.1 e.2) w).layer.isSome =
      (w.layer.isSome || taken.any fun e => isVia e.2) := by
  induction taken generalizing w with
  | nil => simp
  | cons e taken ih => rw [List.foldl_cons, ih, isSome_layer_visit, List.any_cons, Bool.or_assoc]

/-! ### The second loops -/

theorem lastRuleOf_foldl (tech : DbTech) (back : List (Nat × WireEntry)) (last : Option Nat) :
    back.foldl (fun last e => (ruleOf tech e.2).or last) last = (lastRuleOf tech back).or last := by
  unfold lastRuleOf
  induction back generalizing last with
  | nil => rfl
  | cons e back ih =>
      rw [List.foldl_cons, List.foldl_cons, ih, ih ((ruleOf tech e.2).or none)]
      cases ruleOf tech e.2 <;> simp

theorem lastRuleOf_cons (tech : DbTech) (e : Nat × WireEntry) (back : List (Nat × WireEntry)) :
    lastRuleOf tech (e :: back) = (lastRuleOf tech back).or (ruleOf tech e.2) := by
  rw [lastRuleOf, List.foldl_cons, lastRuleOf_foldl, Option.or_none]

/-- With the layer given, the first rule gives the width. -/
theorem runUntil_lookOnLayer {r : Nat} (hbase : w.base tech back = some r) :
    ∃ rest, runUntil (fun w => w.foundWidth) (fun w e => lookOnLayer tech w e.1 e.2) w back =
      some ({ w with foundWidth := true, width := r }, rest) := by
  induction back generalizing w with
  | nil =>
      unfold base at hbase
      cases hfound : w.foundWidth with
      | false =>
          rw [hfound] at hbase
          cases hbase
      | true =>
          rw [hfound] at hbase
          obtain rfl : w.width = r := Option.some.inj hbase
          refine ⟨[], ?_⟩
          rw [runUntil_of_stop hfound, ← hfound]
  | cons e back ih =>
      cases hfound : w.foundWidth with
      | true =>
          unfold base at hbase
          rw [hfound] at hbase
          obtain rfl : w.width = r := Option.some.inj hbase
          refine ⟨e :: back, ?_⟩
          rw [runUntil_of_stop hfound, ← hfound]
      | false =>
          rw [runUntil_cons hfound]
          unfold base firstRuleOf at hbase
          rw [hfound, List.findSome?_cons] at hbase
          by_cases hop : WireOp.ofOpcode e.2.1 = some WOP_RULE
          · have hlook : lookOnLayer tech w e.1 e.2 =
                { w with foundWidth := true, width := ruleWidth tech e.2 } := by
              unfold lookOnLayer
              rw [hop]
            have hrule : ruleOf tech e.2 = some (ruleWidth tech e.2) := if_pos hop
            rw [hrule] at hbase
            obtain rfl : ruleWidth tech e.2 = r := Option.some.inj hbase
            rw [hlook]
            exact ih rfl
          · have hlook : lookOnLayer tech w e.1 e.2 = w := by
              unfold lookOnLayer
              split
              · contradiction
              · rfl
            have hrule : ruleOf tech e.2 = none := if_neg hop
            rw [hrule] at hbase
            rw [hlook]
            refine ih ?_
            unfold base firstRuleOf
            rw [hfound]
            exact hbase

theorem look_rule {e : Nat × WireEntry} (hop : WireOp.ofOpcode e.2.1 = some WOP_RULE) :
    look tech w e.1 e.2 = { w with foundWidth := true, width := ruleWidth tech e.2 } := by
  unfold look
  rw [hop]

theorem look_layer {e : Nat × WireEntry} {layer : Nat} (h : segmentLayerOf tech e.2 = some layer) :
    look tech w e.1 e.2 = w.firstLayer layer := by
  unfold segmentLayerOf layerOf at h
  unfold look
  cases hop : WireOp.ofOpcode e.2.1 with
  | none => simp [hop] at h
  | some op => cases op <;> simp_all

theorem look_other {e : Nat × WireEntry} (hlayer : segmentLayerOf tech e.2 = none)
    (hop : WireOp.ofOpcode e.2.1 ≠ some WOP_RULE) : look tech w e.1 e.2 = w := by
  unfold segmentLayerOf layerOf at hlayer
  unfold look
  cases hop' : WireOp.ofOpcode e.2.1 with
  | none => rfl
  | some op => cases op <;> simp_all

theorem segmentLayerOf_rule {e : Nat × WireEntry} (hop : WireOp.ofOpcode e.2.1 = some WOP_RULE) :
    segmentLayerOf tech e.2 = none := by
  simp [segmentLayerOf, layerOf, hop]

theorem base_cons_rule (hfound : w.foundWidth = false) {e : Nat × WireEntry}
    (hop : WireOp.ofOpcode e.2.1 = some WOP_RULE) :
    w.base tech (e :: back) = some (ruleWidth tech e.2) := by
  have hrule : ruleOf tech e.2 = some (ruleWidth tech e.2) := if_pos hop
  unfold base firstRuleOf
  rw [hfound, List.findSome?_cons, hrule]
  rfl

theorem base_cons_other {e : Nat × WireEntry} (hop : WireOp.ofOpcode e.2.1 ≠ some WOP_RULE) :
    w.base tech (e :: back) = w.base tech back := by
  have hrule : ruleOf tech e.2 = none := if_neg hop
  unfold base firstRuleOf
  rw [List.findSome?_cons, hrule]

/-- The rules that are passed before a layer is known. -/
def passed (tech : DbTech) (w : SegmentWalk) (back : List (Nat × WireEntry)) : Option Nat :=
  lastRuleOf tech (if w.layer.isSome then []
    else back.takeWhile fun e => (segmentLayerOf tech e.2).isNone)

theorem passed_of_isSome (h : w.layer.isSome = true) : w.passed tech back = none := by
  unfold passed
  rw [if_pos h]
  rfl

theorem passed_cons_layer (h : w.layer.isSome = false) {e : Nat × WireEntry} {layer : Nat}
    (he : segmentLayerOf tech e.2 = some layer) : w.passed tech (e :: back) = none := by
  unfold passed
  rw [h, if_neg Bool.false_ne_true, List.takeWhile_cons, he]
  rfl

theorem passed_cons (h : w.layer.isSome = false) {e : Nat × WireEntry}
    (he : segmentLayerOf tech e.2 = none) :
    w.passed tech (e :: back) = (w.passed tech back).or (ruleOf tech e.2) := by
  unfold passed
  rw [h, if_neg Bool.false_ne_true, if_neg Bool.false_ne_true, List.takeWhile_cons, he]
  exact lastRuleOf_cons tech e _

/-- The end of the second loop. -/
def settled (w : SegmentWalk) (layer width : Nat) : SegmentWalk :=
  { w with layer := some layer, foundWidth := true, width := width }

theorem settled_self {layer : Nat} (hlayer : w.layer = some layer) (hfound : w.foundWidth = true) :
    w.settled layer w.width = w := by
  unfold settled
  rw [← hlayer, ← hfound]

theorem settled_firstLayer (w : SegmentWalk) (layer layer' width : Nat) :
    (w.firstLayer layer).settled layer' width = w.settled layer' width := by
  unfold firstLayer
  split_ifs <;> rfl

theorem runUntil_look_of_stop {r : Nat} (hbase : w.base tech back = some r)
    (hstop : w.known = true) :
    ∃ layer rest, runUntil known (fun w e => look tech w e.1 e.2) w back =
      some (w.settled layer ((w.passed tech back).getD r), rest) := by
  obtain ⟨hlayer, hfound⟩ := (Bool.and_eq_true _ _).mp hstop
  obtain ⟨layer, hsome⟩ := Option.isSome_iff_exists.mp hlayer
  unfold base at hbase
  rw [if_pos hfound] at hbase
  obtain rfl : w.width = r := Option.some.inj hbase
  refine ⟨layer, back, ?_⟩
  rw [runUntil_of_stop hstop, passed_of_isSome hlayer, Option.getD_none, settled_self hsome hfound]

/-- With a layer, the first rule gives the width; without one, the last rule before the layer does, if
there is one. -/
theorem runUntil_look {r : Nat} (hbase : w.base tech back = some r)
    (hlayer : w.layer.isSome = true ∨ ∃ e ∈ back, (segmentLayerOf tech e.2).isSome = true) :
    ∃ layer rest, runUntil known (fun w e => look tech w e.1 e.2) w back =
      some (w.settled layer ((w.passed tech back).getD r), rest) := by
  induction back generalizing w r with
  | nil =>
      refine runUntil_look_of_stop hbase ?_
      obtain hlayer | ⟨e, he, -⟩ := hlayer
      · cases hfound : w.foundWidth with
        | true => rw [known, hlayer, hfound, Bool.and_self]
        | false =>
            unfold base at hbase
            rw [hfound] at hbase
            cases hbase
      · cases he
  | cons e back ih =>
      cases hstop : w.known with
      | true => exact runUntil_look_of_stop hbase hstop
      | false =>
          have hrest : segmentLayerOf tech e.2 = none → w.layer.isSome = true ∨
              ∃ e ∈ back, (segmentLayerOf tech e.2).isSome = true := by
            rintro hnone
            obtain h | ⟨e', he', h⟩ := hlayer
            · exact Or.inl h
            · rcases List.mem_cons.mp he' with rfl | he'
              · rw [hnone] at h
                cases h
              · exact Or.inr ⟨e', he', h⟩
          by_cases hop : WireOp.ofOpcode e.2.1 = some WOP_RULE
          · have hnone := @segmentLayerOf_rule tech e hop
            have hrule : ruleOf tech e.2 = some (ruleWidth tech e.2) := if_pos hop
            rw [runUntil_cons hstop, look_rule hop]
            obtain ⟨layer, rest, hrun⟩ := @ih { w with foundWidth := true, width := ruleWidth tech e.2 }
              (ruleWidth tech e.2) rfl (hrest hnone)
            refine ⟨layer, rest, hrun.trans ?_⟩
            have hpassed : passed tech { w with foundWidth := true, width := ruleWidth tech e.2 } back =
                w.passed tech back := rfl
            rw [hpassed]
            cases hknown : w.layer.isSome with
            | true =>
                rw [known, hknown, Bool.true_and] at hstop
                rw [base_cons_rule hstop hop] at hbase
                obtain rfl := Option.some.inj hbase
                rw [passed_of_isSome hknown, passed_of_isSome hknown]
                rfl
            | false =>
                rw [passed_cons hknown hnone, hrule]
                cases w.passed tech back <;> rfl
          · rw [base_cons_other hop] at hbase
            have hrule : ruleOf tech e.2 = none := if_neg hop
            cases he : segmentLayerOf tech e.2 with
            | none =>
                rw [runUntil_cons hstop, look_other he hop]
                obtain ⟨layer, rest, hrun⟩ := ih hbase (hrest he)
                refine ⟨layer, rest, hrun.trans ?_⟩
                cases hknown : w.layer.isSome with
                | true => rw [passed_of_isSome hknown, passed_of_isSome hknown]
                | false => rw [passed_cons hknown he, hrule, Option.or_none]
            | some layer =>
                rw [runUntil_cons hstop, look_layer he]
                have hbase' : (w.firstLayer layer).base tech back = some r := by
                  rw [← hbase]
                  unfold firstLayer base
                  split_ifs <;> rfl
                obtain ⟨layer', rest, hrun⟩ := ih hbase' (Or.inl (isSome_firstLayer w layer))
                refine ⟨layer', rest, hrun.trans ?_⟩
                rw [passed_of_isSome (isSome_firstLayer w layer), settled_firstLayer]
                have hpassed : w.passed tech (e :: back) = none := by
                  cases hknown : w.layer.isSome with
                  | true => exact passed_of_isSome hknown
                  | false => exact passed_cons_layer hknown he
                rw [hpassed]

/-! ### Both overloads from one point -/

/-- The segments agree where the extensions and the halves of the widths do. -/
theorem segment_eq_iff {u : SegmentWalk} (hcore : u.core = t.core) (layer p r : Nat) :
    (u.settled layer r).segment tech layer = (t.settled layer p).segment tech layer ↔
      u.ext = t.ext ∧ (t.defaultWidth = false → p / 2 = r / 2) := by
  obtain ⟨-, hcur, hprev, -, hprevExt, hhas, -, -, -, -, hdefault, -⟩ := SegmentWalk.mk.inj hcore
  constructor
  · intro h
    refine ⟨Prod.ext (congrArg DbSegment.curExt h) (congrArg DbSegment.hasCurExt h), fun hno => ?_⟩
    have hdw := congrArg DbSegment.defaultExt h
    change (if u.defaultWidth then _ else r / 2) = (if t.defaultWidth then _ else p / 2) at hdw
    rw [hdefault, hno] at hdw
    exact hdw.symm
  · rintro ⟨hext, hwidth⟩
    obtain ⟨hext, hhasExt⟩ := Prod.mk.inj hext
    have hhalf : u.defaultHalf (tech.getTechLayer layer) = t.defaultHalf (tech.getTechLayer layer) := by
      unfold defaultHalf
      rw [hprev, hcur]
    have hdw : (if u.defaultWidth then u.defaultHalf (tech.getTechLayer layer) else r / 2) =
        if t.defaultWidth then t.defaultHalf (tech.getTechLayer layer) else p / 2 := by
      rw [hdefault, hhalf]
      cases hno : t.defaultWidth with
      | true => rfl
      | false => exact (hwidth hno).symm
    have hde : (if u.defaultWidth then (tech.getTechLayer layer).width / 2 else r / 2) =
        if t.defaultWidth then (tech.getTechLayer layer).width / 2 else p / 2 := by
      rw [hdefault]
      cases hno : t.defaultWidth with
      | true => rfl
      | false => exact (hwidth hno).symm
    exact DbSegment.mk.injEq .. |>.mpr ⟨hprev, hprevExt, hhas, hcur, hext, hhasExt, hdw, hde, rfl⟩

section FirstLoops

variable {e : Nat × WireEntry} {input : CoordInput}

/-- The first loop ends where both points are known. -/
theorem runUntil_visit
    (hknown : runUntil (· == 13) stateAfter 0 back = some (13, rest)) : ∃ t u,
      runUntil (fun w => w.state == 13) (fun w e => visit tech ops w e.1 e.2) {} back = some (t, rest) ∧
      runUntil (fun w => w.state == 13) (fun w e => visitOnLayer tech ops w e.1 e.2) {} back =
        some (u, rest) ∧ u.core = t.core := by
  have hstates := @runUntil_map _ _ _ (fun w : SegmentWalk => w.state == 13)
    (fun w e => visit tech ops w e.1 e.2) state (· == 13) stateAfter (fun _ => rfl)
    (fun w e => (state_visit w e).symm) {} back
  rw [show state {} = 0 from rfl, hknown] at hstates
  obtain ⟨⟨t, rest'⟩, ht, heq⟩ := Option.map_eq_some_iff.mp hstates.symm
  obtain rfl : rest' = rest := (Prod.mk.inj heq).2
  have hgeneral := @runUntil_map _ _ _ (fun w : SegmentWalk => w.state == 13)
    (fun w e => visit tech ops w e.1 e.2) core (fun w => w.state == 13)
    (fun w e => (visitOnLayer tech ops w e.1 e.2).core) (fun _ => rfl)
    (fun w e => core_visit w e.1 e.2) {} back
  have hfast := @runUntil_map _ _ _ (fun w : SegmentWalk => w.state == 13)
    (fun w e => visitOnLayer tech ops w e.1 e.2) core (fun w => w.state == 13)
    (fun w e => (visitOnLayer tech ops w e.1 e.2).core) (fun _ => rfl)
    (fun w e => core_visitOnLayer w e.1 e.2) {} back
  rw [hgeneral, ht] at hfast
  obtain ⟨⟨u, rest'⟩, hu, heq⟩ := Option.map_eq_some_iff.mp hfast.symm
  obtain ⟨hcore, rfl⟩ := Prod.mk.inj heq
  exact ⟨t, u, ht, hu, hcore⟩

/-- The extensions are the same where no via lies before one. -/
theorem ext_eq_iff {u : SegmentWalk} (hinput : coordInput e.2 = some input)
    (ht : runUntil (fun w => w.state == 13) (fun w e => visit tech ops w e.1 e.2) {} (e :: back) =
      some (t, rest))
    (hu : runUntil (fun w => w.state == 13) (fun w e => visitOnLayer tech ops w e.1 e.2) {}
      (e :: back) = some (u, rest)) : u.ext = t.ext ↔ ¬ViaBeforeExtension back := by
  rw [runUntil_cons rfl, passes_visit.point _ _ _ _ hinput] at ht
  rw [runUntil_cons rfl, passes_visitOnLayer.point _ _ _ _ hinput] at hu
  set w : SegmentWalk := ({} : SegmentWalk).update ops e.1 e.2 input with hw
  have hstate : w.state = input.next 0 := by rw [hw, state_update]
  obtain ⟨hpos, hle⟩ := next_zero input
  rw [← hstate] at hpos hle
  have hstart : w.ext = (0, false) ∧ w.ignoreExt = false := by
    rw [hw]
    unfold update readFlags
    cases hasFlag e.2.1 WOP_DEFAULT_WIDTH <;> cases hasFlag e.2.1 WOP_EXTENSION <;> exact ⟨rfl, rfl⟩
  have hgeneral := ext_run_of_le passes_visit hpos hle ht
  have hfast := ext_run_of_le passes_visitOnLayer hpos hle hu
  rw [hstart.1, hstart.2, if_neg Bool.false_ne_true] at hgeneral hfast
  rw [hgeneral, hfast, ← readsExt_ne_iff, not_ne_iff]
  rcases readsExt_or back with hnone | hsame
  · rw [hnone]
    cases readsExt isJunctionEntry back with
    | none => exact iff_of_true rfl rfl
    | some i => exact iff_of_false (by simp) (by simp)
  · rw [hsame]
    exact iff_of_true rfl rfl

/-- The width that the second loop starts with. -/
theorem base_first (hinput : coordInput e.2 = some input)
    (ht : runUntil (fun w => w.state == 13) (fun w e => visit tech ops w e.1 e.2) {} (e :: back) =
      some (t, rest)) : t.defaultWidth = hasFlag e.2.1 WOP_DEFAULT_WIDTH ∧
      t.base tech rest = if hasFlag e.2.1 WOP_DEFAULT_WIDTH then some 0
        else firstRuleOf tech (e :: back) := by
  rw [runUntil_cons rfl, passes_visit.point _ _ _ _ hinput] at ht
  have hstate : (({} : SegmentWalk).update ops e.1 e.2 input).state ≠ 0 := by
    rw [state_update]
    exact Nat.ne_of_gt (next_zero input).1
  obtain ⟨hbase, hdefault⟩ := base_run hstate ht
  have hno : ruleOf tech e.2 = none := by
    unfold coordInput at hinput
    unfold ruleOf
    split at hinput <;> simp_all
  have hfirst : firstRuleOf tech (e :: back) = firstRuleOf tech back := by
    unfold firstRuleOf
    rw [List.findSome?_cons, hno]
  rw [hbase, hdefault, hfirst]
  unfold base update readFlags
  dsimp only
  cases hasFlag e.2.1 WOP_DEFAULT_WIDTH <;> cases hasFlag e.2.1 WOP_EXTENSION <;> exact ⟨rfl, rfl⟩

theorem passed_iff (hknown : runUntil (· == 13) stateAfter 0 back = some (13, rest))
    (ht : runUntil (fun w => w.state == 13) (fun w e => visit tech ops w e.1 e.2) {} back =
      some (t, rest)) (p : Nat) : t.passed tech rest = some p ↔ RulePassed tech back p := by
  obtain ⟨-, taken, hsplit, hfold⟩ := runUntil_eq_some ht
  have hlayer := @isSome_layer_foldl tech ops {} taken
  rw [← hfold] at hlayer
  change t.layer.isSome = taken.any _ at hlayer
  constructor
  · intro h
    cases hvia : t.layer.isSome with
    | true =>
        rw [passed_of_isSome hvia] at h
        cases h
    | false =>
        rw [hvia] at hlayer
        refine ⟨taken, rest, hsplit, hknown, fun e he => ?_, ?_⟩
        · exact Bool.eq_false_iff.mpr (List.any_eq_false.mp hlayer.symm e he)
        · unfold passed at h
          rwa [hvia, if_neg Bool.false_ne_true] at h
  · rintro ⟨taken', rest', hsplit', hknown', hvia, hlast⟩
    obtain ⟨-, rfl⟩ := Prod.mk.inj (Option.some.inj (hknown.symm.trans hknown'))
    obtain rfl := List.append_cancel_right (hsplit.symm.trans hsplit')
    have hno : t.layer.isSome = false := by
      rw [hlayer]
      exact List.any_eq_false.mpr fun e he => Bool.eq_false_iff.mp (hvia e he)
    unfold passed
    rw [hno, if_neg Bool.false_ne_true]
    exact hlast

end FirstLoops

end SegmentWalk

/-- From a point whose way back has a layer and a width, both overloads find the same segment exactly
where no via lies before the extension of the previous point, and no rule with another half of the width
is passed before the layer. -/
theorem sameSegment_iff {tech : DbTech} {ops : List WireEntry} (hback : BackwardJunctions ops) {s : Nat}
    {entry : WireEntry} (hentry : ops[s]? = some entry) {input : CoordInput}
    (hinput : coordInput entry = some input) {rest : List (Nat × WireEntry)}
    (hknown : runUntil (· == 13) stateAfter 0 (way ops (some s)) = some (13, rest))
    (hlayer : ∃ e ∈ rest, (segmentLayerOf tech e.2).isSome = true)
    (hwidth : hasFlag entry.1 WOP_DEFAULT_WIDTH = false →
      (firstRuleOf tech (way ops (some s))).isSome = true) :
    (∃ segment, getSegment tech ops s = some segment ∧
      getSegmentOnLayer tech ops s segment.layer = some segment) ↔
        SameSegment tech (way ops (some s)) := by
  have hlt : s < ops.length := (List.getElem?_eq_some_iff.mp hentry).1
  obtain ⟨t, u, ht, hu, hcore⟩ := @SegmentWalk.runUntil_visit tech ops _ _ hknown
  have hstart : ∀ i, some s = some i → i + 1 < s + 2 := by
    rintro i hi
    obtain rfl := Option.some.inj hi
    omega
  obtain ⟨idx, hwalk, hrest⟩ := walkUntil_of_way hback hstart (by omega) ht
  obtain ⟨idx', hwalk', hrest'⟩ := walkUntil_of_way hback hstart (by omega) hu
  have hfuel : ∀ i, idx = some i → i + 1 < ops.length + 1 := by
    rintro i rfl
    have := @walkUntil_lt _ _ _ _ hback (s + 2) (s + 1) _ _ _ (by rintro i hi; cases hi; omega) _ hwalk
    omega
  have hfuel' : ∀ i, idx' = some i → i + 1 < ops.length + 1 := by
    rintro i rfl
    have := @walkUntil_lt _ _ _ _ hback (s + 2) (s + 1) _ _ _ (by rintro i hi; cases hi; omega) _ hwalk'
    omega
  rw [way_some hback hentry] at hwidth hknown ht hu ⊢
  obtain ⟨hdefault, hbase⟩ := SegmentWalk.base_first hinput ht
  obtain ⟨r, hr⟩ : ∃ r, t.base tech rest = some r := by
    rw [hbase]
    cases hflag : hasFlag entry.1 WOP_DEFAULT_WIDTH with
    | true => exact ⟨0, rfl⟩
    | false => exact Option.isSome_iff_exists.mp (hwidth hflag)
  have hr' : u.base tech rest = some r := by
    obtain ⟨-, -, -, -, -, -, -, -, hw, hfound, -, -⟩ := SegmentWalk.mk.inj hcore
    rw [← hr]
    unfold SegmentWalk.base
    rw [hw, hfound]
  obtain ⟨layer, more, hlook⟩ := SegmentWalk.runUntil_look hr (Or.inr hlayer)
  obtain ⟨more', hlook'⟩ := SegmentWalk.runUntil_lookOnLayer hr'
  rw [← hrest] at hlook
  rw [← hrest'] at hlook'
  obtain ⟨last, hwalk₂, -⟩ := walkUntil_of_way hback hfuel (Nat.succ_pos _) hlook
  obtain ⟨last', hwalk₂', -⟩ := walkUntil_of_way hback hfuel' (Nat.succ_pos _) hlook'
  rw [hrest] at hwalk₂
  have hgeneral : getSegment tech ops s =
      some ((t.settled layer ((t.passed tech rest).getD r)).segment tech layer) := by
    unfold getSegment
    rw [hwalk, Option.bind_eq_bind, Option.bind_some]
    dsimp only
    rw [hwalk₂]
    rfl
  have hfast : ∀ layer, getSegmentOnLayer tech ops s layer =
      some ((u.settled layer r).segment tech layer) := by
    intro layer
    unfold getSegmentOnLayer
    rw [hwalk', Option.bind_eq_bind, Option.bind_some]
    dsimp only
    rw [hwalk₂']
    rfl
  have hboth : (∃ segment, getSegment tech ops s = some segment ∧
      getSegmentOnLayer tech ops s segment.layer = some segment) ↔ (u.settled layer r).segment tech layer =
        (t.settled layer ((t.passed tech rest).getD r)).segment tech layer := by
    rw [hgeneral]
    constructor
    · rintro ⟨segment, heq, hsame⟩
      obtain rfl := Option.some.inj heq
      exact Option.some.inj ((hfast layer).symm.trans hsame)
    · intro heq
      exact ⟨_, rfl, (hfast layer).trans (congrArg some heq)⟩
  rw [hboth, SegmentWalk.segment_eq_iff hcore, SegmentWalk.ext_eq_iff hinput ht hu, hdefault]
  have hpassed := SegmentWalk.passed_iff hknown ht
  constructor
  · rintro ⟨hext, hhalf⟩
    refine ⟨hext, ?_⟩
    rintro e he hflag first passed hfirst hrule
    obtain rfl := Option.some.inj he
    rw [hflag, if_neg Bool.false_ne_true, hfirst] at hbase
    obtain rfl := Option.some.inj (hr.symm.trans hbase)
    have hsame := hhalf hflag
    rwa [(hpassed passed).mpr hrule] at hsame
  · rintro ⟨hext, hhalf⟩
    refine ⟨hext, fun hflag => ?_⟩
    rw [hflag, if_neg Bool.false_ne_true, hr] at hbase
    cases hrule : t.passed tech rest with
    | none => rfl
    | some p => exact hhalf _ rfl hflag r p hbase.symm ((hpassed p).mp hrule)

end OpenRoad.Db
