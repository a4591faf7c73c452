import OpenRoad.PplGroupMatrix
import Mathlib.Data.List.Nodup
import Mathlib.Algebra.Order.Ring.Int
import Mathlib.Algebra.Ring.Divisibility.Basic

/-!
The sections of a constraint interval: for every layer of its edge the slots of the interval are
searched, and the range found is cut into sections of a fixed number of slots.
-/

namespace OpenRoad.Ppl

open Db (Point)

/-- A section when it is made, without pins. -/
structure SlotSection where
  pos : Point
  numSlots : Int
  beginSlot : Int
  endSlot : Int
  usedSlots : Int
  edge : Edge
  deriving DecidableEq

structure Interval where
  edge : Edge
  first : Int
  last : Int

inductive SectionFault where
  /-- error 40 -/
  | negativeSlots
  /-- `slots_.at` out of range -/
  | outOfRange
  deriving DecidableEq

/-- `slots_.at` -/
def slotAtChecked (slots : List Slot) (i : Int) : Option Slot :=
  if i < 0 then none else slots[i.toNat]?

/-! ### `findSections` -/

section Sections

variable (slots : List Slot) (slotsPerSection : Int) (edge : Edge) (rangeEnd : Int)

/-- The loop, with `end_slot` of the last round and the slot to begin at. -/
def findSectionsFrom : Nat → Int → Int → List SlotSection → Except SectionFault (List SlotSection)
  | 0, _, _, sections => .ok sections
  | fuel + 1, endSlot, beginSlot, sections =>
      if endSlot < rangeEnd then
        let endSlot :=
          if rangeEnd < beginSlot + slotsPerSection - 1 then rangeEnd
          else beginSlot + slotsPerSection - 1
        let blockedSlots := (List.range (endSlot + 1 - beginSlot).toNat).countP fun k : Nat =>
          (slotAt slots (beginSlot + k).toNat).blocked
        let halfLengthPt := beginSlot + (endSlot - beginSlot).tdiv 2
        match slotAtChecked slots halfLengthPt with
        | none => .error .outOfRange
        | some slot =>
            let numSlots := endSlot - beginSlot - blockedSlots + 1
            if numSlots < 0 then .error .negativeSlots
            else
              findSectionsFrom fuel (endSlot + 1) (endSlot + 1)
                (sections ++ [⟨slot.pos, numSlots, beginSlot, endSlot, 0, edge⟩])
      else .ok sections

/-- The sections of a range are appended to the ones there. -/
def findSections (beginSlot : Int) (sections : List SlotSection) :
    Except SectionFault (List SlotSection) :=
  findSectionsFrom slots slotsPerSection edge rangeEnd (slots.length + 2) 0 beginSlot sections

end Sections

/-! ### `createSectionsPerConstraint` -/

/-- The coordinate of a slot along an edge. -/
def slotXY (edge : Edge) (s : Slot) : Int :=
  if edge = .left ∨ edge = .right then s.pos.y else s.pos.x

/-- The test of the first search: the slot is in the interval or beyond its near end. -/
def reachesInterval (interval : Interval) (layer : Int) (s : Slot) : Bool :=
  if interval.edge = .bottom ∨ interval.edge = .right then
    s.edge = interval.edge && s.layer = layer && interval.first ≤ slotXY interval.edge s
  else s.edge = interval.edge && s.layer = layer && slotXY interval.edge s ≤ interval.last

/-- The test of the second search: the slot is at or beyond the far end, or elsewhere. -/
def leavesInterval (interval : Interval) (layer : Int) (s : Slot) : Bool :=
  if interval.edge = .bottom ∨ interval.edge = .right then
    interval.last ≤ slotXY interval.edge s || s.edge ≠ interval.edge || s.layer ≠ layer
  else slotXY interval.edge s ≤ interval.first || s.edge ≠ interval.edge || s.layer ≠ layer

/-- What the function leaves in the constraint and returns. -/
structure ConstraintSections where
  firstSlot : Int
  lastSlot : Int
  sections : List SlotSection
  deriving DecidableEq

section Constraint

variable (slots : List Slot) (slotsPerSection : Int)

/-- `constraint_begin` of a layer. -/
def constraintBegin (interval : Interval) (layer : Int) : Nat :=
  slots.findIdx (reachesInterval interval layer)

/-- The slot behind `constraint_end` of a layer. -/
def constraintStop (interval : Interval) (layer : Int) : Nat :=
  constraintBegin slots interval layer +
    (slots.drop (constraintBegin slots interval layer)).findIdx (leavesInterval interval layer)

/-- The loop over the layers of the edge. -/
def layerSections (interval : Interval) :
    List Int → Bool → ConstraintSections → Except SectionFault ConstraintSections
  | [], _, C => .ok C
  | layer :: layers, firstLayer, C =>
      let constraintFirst : Int := constraintBegin slots interval layer
      let constraintLast : Int := constraintStop slots interval layer - 1
      match findSections slots slotsPerSection interval.edge constraintLast constraintFirst
          C.sections with
      | .error e => .error e
      | .ok sections =>
          layerSections interval layers false
            ⟨if firstLayer then constraintFirst else C.firstSlot, constraintLast, sections⟩

/-- The sections of a constraint; those of the top layer are found by another function. -/
def createSectionsPerConstraint (horLayers verLayers : List Int) (topLayer : List SlotSection)
    (interval : Interval) (firstSlot lastSlot : Int) : Except SectionFault ConstraintSections :=
  if interval.edge ≠ .invalid then
    layerSections slots slotsPerSection interval
      (if interval.edge = .left ∨ interval.edge = .right then horLayers else verLayers) true
      ⟨firstSlot, lastSlot, []⟩
  else .ok ⟨firstSlot, lastSlot, topLayer⟩

end Constraint

/-! ### Cutting a range -/

/-- Sections that cover the slots from `start` to before `stop` one after the other. -/
structure Covers (slotsPerSection start stop : Int) (sections : List SlotSection) : Prop where
  nonempty : ∀ s ∈ sections, s.beginSlot ≤ s.endSlot
  size : ∀ s ∈ sections, s.endSlot - s.beginSlot + 1 ≤ slotsPerSection
  ordered : sections.Pairwise fun a b => a.endSlot < b.beginSlot
  mem_iff : ∀ i, (∃ s ∈ sections, s.beginSlot ≤ i ∧ i ≤ s.endSlot) ↔ start ≤ i ∧ i < stop

namespace Covers

variable {slotsPerSection start stop : Int} {sections : List SlotSection}

theorem nil (slotsPerSection : Int) (h : stop ≤ start) : Covers slotsPerSection start stop [] := by
  refine ⟨by simp, by simp, List.Pairwise.nil, fun i => ?_⟩
  simp only [List.not_mem_nil, false_and, exists_false, false_iff]
  omega

theorem bounds (h : Covers slotsPerSection start stop sections) {s : SlotSection}
    (hs : s ∈ sections) : start ≤ s.beginSlot ∧ s.endSlot < stop := by
  have hle := h.nonempty s hs
  have hbegin := (h.mem_iff s.beginSlot).mp ⟨s, hs, le_rfl, hle⟩
  have hend := (h.mem_iff s.endSlot).mp ⟨s, hs, hle, le_rfl⟩
  exact ⟨hbegin.1, hend.2⟩

/-- One more section in front. -/
theorem cons {s : SlotSection} (hle : s.beginSlot ≤ s.endSlot)
    (hsize : s.endSlot - s.beginSlot + 1 ≤ slotsPerSection) (hstop : s.endSlot + 1 ≤ stop)
    (h : Covers slotsPerSection (s.endSlot + 1) stop sections) :
    Covers slotsPerSection s.beginSlot stop (s :: sections) := by
  refine ⟨List.forall_mem_cons.mpr ⟨hle, h.nonempty⟩, List.forall_mem_cons.mpr ⟨hsize, h.size⟩,
    List.pairwise_cons.mpr ⟨fun b hb => ?_, h.ordered⟩, fun i => ?_⟩
  · have := (h.bounds hb).1
    omega
  · rw [List.exists_mem_cons_iff, h.mem_iff i]
    omega

end Covers

section Cut

variable {slots : List Slot} {slotsPerSection : Int} {edge : Edge} {rangeEnd : Int}

theorem slotAtChecked_isSome {i : Int} (h0 : 0 ≤ i) (hlt : i < slots.length) :
    ∃ slot, slotAtChecked slots i = some slot := by
  unfold slotAtChecked
  rw [if_neg (by omega)]
  exact ⟨_, List.getElem?_eq_getElem (by omega)⟩

/-- One round makes a section, also of no slots, if its middle slot is in the vector. -/
theorem findSectionsFrom_step {fuel : Nat} {endSlot beginSlot : Int} {sections : List SlotSection}
    (hgo : endSlot < rangeEnd) (hle : beginSlot ≤ rangeEnd + 1) (hsize : 0 < slotsPerSection)
    {slot : Slot} (hslot : slotAtChecked slots (beginSlot +
      (min rangeEnd (beginSlot + slotsPerSection - 1) - beginSlot).tdiv 2) = some slot) :
    ∃ s : SlotSection, s.beginSlot = beginSlot ∧
      s.endSlot = min rangeEnd (beginSlot + slotsPerSection - 1) ∧
      findSectionsFrom slots slotsPerSection edge rangeEnd (fuel + 1) endSlot beginSlot sections =
        findSectionsFrom slots slotsPerSection edge rangeEnd fuel (s.endSlot + 1) (s.endSlot + 1)
          (sections ++ [s]) := by
  have hmin : (if rangeEnd < beginSlot + slotsPerSection - 1 then rangeEnd
      else beginSlot + slotsPerSection - 1) = min rangeEnd (beginSlot + slotsPerSection - 1) := by
    split_ifs <;> omega
  rw [findSectionsFrom, if_pos hgo]
  dsimp only
  rw [hmin, hslot]
  generalize hlast : min rangeEnd (beginSlot + slotsPerSection - 1) = last
  have hlen := List.countP_le_length (p := fun k : Nat =>
    (slotAt slots (beginSlot + k).toNat).blocked) (l := List.range (last + 1 - beginSlot).toNat)
  rw [List.length_range] at hlen
  dsimp only
  rw [if_neg (by omega)]
  exact ⟨⟨slot.pos, _, beginSlot, last, 0, edge⟩, rfl, rfl, rfl⟩

/-- One round over slots of the vector makes a section of them. -/
theorem findSectionsFrom_slots {fuel : Nat} {endSlot beginSlot : Int} {sections : List SlotSection}
    (hgo : endSlot < rangeEnd) (hbegin : 0 ≤ beginSlot) (hle : beginSlot ≤ rangeEnd)
    (hend : rangeEnd < slots.length) (hsize : 0 < slotsPerSection) :
    ∃ s : SlotSection, s.beginSlot = beginSlot ∧
      s.endSlot = min rangeEnd (beginSlot + slotsPerSection - 1) ∧
      findSectionsFrom slots slotsPerSection edge rangeEnd (fuel + 1) endSlot beginSlot sections =
        findSectionsFrom slots slotsPerSection edge rangeEnd fuel (s.endSlot + 1) (s.endSlot + 1)
          (sections ++ [s]) := by
  have hhalf := Int.tdiv_eq_ediv_of_nonneg
    (a := min rangeEnd (beginSlot + slotsPerSection - 1) - beginSlot) (b := 2) (by omega)
  obtain ⟨slot, hslot⟩ := @slotAtChecked_isSome slots (beginSlot +
    (min rangeEnd (beginSlot + slotsPerSection - 1) - beginSlot).tdiv 2)
    (by omega) (by omega)
  exact findSectionsFrom_step hgo (by omega) hsize hslot

/-- The later rounds: where the last section is full and one slot is left, it is lost. -/
theorem findSectionsFrom_rest (hend : rangeEnd < slots.length) (hsize : 0 < slotsPerSection) :
    ∀ (fuel : Nat) (beginSlot : Int) (sections : List SlotSection), 0 ≤ beginSlot →
      beginSlot ≤ rangeEnd + 1 → rangeEnd < beginSlot + fuel →
      ∃ more, findSectionsFrom slots slotsPerSection edge rangeEnd fuel beginSlot beginSlot sections =
          .ok (sections ++ more) ∧
        Covers slotsPerSection beginSlot
          (if beginSlot ≤ rangeEnd ∧ slotsPerSection ∣ rangeEnd - beginSlot then rangeEnd
            else rangeEnd + 1) more := by
  intro fuel
  induction fuel with
  | zero =>
      intro beginSlot sections hbegin hle hfuel
      refine ⟨[], by rw [findSectionsFrom, List.append_nil], ?_⟩
      rw [if_neg (by omega)]
      exact Covers.nil _ (by omega)
  | succ fuel ih =>
      intro beginSlot sections hbegin hle hfuel
      by_cases hgo : beginSlot < rangeEnd
      · obtain ⟨s, hsb, hse, hstep⟩ := @findSectionsFrom_slots slots slotsPerSection edge rangeEnd fuel
          beginSlot beginSlot sections hgo hbegin hgo.le hend hsize
        obtain ⟨more, hrest, hcovers⟩ := ih (s.endSlot + 1) (sections ++ [s]) (by omega) (by omega)
          (by omega)
        refine ⟨s :: more, by rw [hstep, hrest, List.append_assoc]; rfl, ?_⟩
        have hstop : (if beginSlot ≤ rangeEnd ∧ slotsPerSection ∣ rangeEnd - beginSlot then rangeEnd
            else rangeEnd + 1) =
            if s.endSlot + 1 ≤ rangeEnd ∧ slotsPerSection ∣ rangeEnd - (s.endSlot + 1) then rangeEnd
              else rangeEnd + 1 := by
          rcases le_or_gt rangeEnd (beginSlot + slotsPerSection - 1) with hshort | hlong
          · have hndvd : ¬slotsPerSection ∣ rangeEnd - beginSlot := fun hdvd => by
              have := Int.le_of_dvd (by omega) hdvd
              omega
            rw [if_neg fun h => hndvd h.2, if_neg (by omega)]
          · have hdvd : slotsPerSection ∣ rangeEnd - (s.endSlot + 1) ↔
                slotsPerSection ∣ rangeEnd - beginSlot := by
              have heq : rangeEnd - (s.endSlot + 1) = rangeEnd - beginSlot - slotsPerSection := by
                omega
              rw [heq]
              exact ⟨fun h => (dvd_sub_self_right).mp h, fun h => (dvd_sub_self_right).mpr h⟩
            simp only [hdvd]
            congr 1
            apply propext
            constructor <;> rintro ⟨h, h'⟩ <;> exact ⟨by omega, h'⟩
        rw [hstop, ← hsb]
        refine Covers.cons (by omega) (by omega) ?_ hcovers
        split_ifs <;> omega
      · rw [findSectionsFrom, if_neg hgo]
        have hstop : (if beginSlot ≤ rangeEnd ∧ slotsPerSection ∣ rangeEnd - beginSlot then rangeEnd
            else rangeEnd + 1) = beginSlot := by
          rcases hle.lt_or_eq with hlt | heq
          · have hlast : beginSlot = rangeEnd := by omega
            rw [hlast, sub_self, if_pos ⟨le_rfl, Int.dvd_zero _⟩]
          · rw [if_neg (by omega), heq]
        rw [hstop]
        exact ⟨[], by rw [List.append_nil], Covers.nil _ le_rfl⟩

/-- A range of slots is covered, up to its last slot if that is alone behind full sections or is the
slot 0. -/
theorem findSections_slots {beginSlot : Int} (hbegin : 0 ≤ beginSlot) (hle : beginSlot ≤ rangeEnd)
    (hend : rangeEnd < slots.length) (hsize : 0 < slotsPerSection) :
    ∃ sections, findSections slots slotsPerSection edge rangeEnd beginSlot [] = .ok sections ∧
      Covers slotsPerSection beginSlot
        (if slotsPerSection ∣ rangeEnd - beginSlot ∧ (beginSlot = rangeEnd → rangeEnd = 0) then rangeEnd
          else rangeEnd + 1) sections := by
  unfold findSections
  by_cases hgo : 0 < rangeEnd
  · obtain ⟨s, hsb, hse, hstep⟩ := @findSectionsFrom_slots slots slotsPerSection edge rangeEnd
      (slots.length + 1) 0 beginSlot [] hgo hbegin hle hend hsize
    obtain ⟨more, hrest, hcovers⟩ := @findSectionsFrom_rest slots slotsPerSection edge rangeEnd hend
      hsize (slots.length + 1) (s.endSlot + 1) [s] (by omega) (by omega) (by omega)
    refine ⟨s :: more, by rw [hstep]; exact hrest, ?_⟩
    have hstop : (if slotsPerSection ∣ rangeEnd - beginSlot ∧ (beginSlot = rangeEnd → rangeEnd = 0)
        then rangeEnd else rangeEnd + 1) =
        if s.endSlot + 1 ≤ rangeEnd ∧ slotsPerSection ∣ rangeEnd - (s.endSlot + 1) then rangeEnd
          else rangeEnd + 1 := by
      rcases le_or_gt rangeEnd (beginSlot + slotsPerSection - 1) with hshort | hlong
      · rw [if_neg, if_neg (by omega)]
        rintro ⟨hdvd, hone⟩
        by_cases heq : beginSlot = rangeEnd
        · have := hone heq
          omega
        · have := Int.le_of_dvd (by omega) hdvd
          omega
      · have heq : rangeEnd - (s.endSlot + 1) = rangeEnd - beginSlot - slotsPerSection := by omega
        rw [heq]
        simp only [dvd_sub_self_right]
        congr 1
        apply propext
        constructor
        · rintro ⟨h, -⟩
          exact ⟨by omega, h⟩
        · rintro ⟨-, h⟩
          exact ⟨h, fun hb => by omega⟩
    rw [hstop, ← hsb]
    refine Covers.cons (by omega) (by omega) ?_ hcovers
    split_ifs <;> omega
  · rw [findSectionsFrom, if_neg hgo]
    obtain rfl : rangeEnd = 0 := by omega
    obtain rfl : beginSlot = 0 := by omega
    rw [if_pos ⟨by rw [sub_self]; exact Int.dvd_zero _, fun _ => rfl⟩]
    exact ⟨[], rfl, Covers.nil _ le_rfl⟩

/-- An empty range behind the first two slots still gets a section, of no slots, and behind the last
slot of the vector the position of that section is out of range. -/
theorem findSections_empty {beginSlot : Int} (hbegin : 2 ≤ beginSlot)
    (hsize : 0 < slotsPerSection) :
    findSections slots slotsPerSection edge (beginSlot - 1) beginSlot [] = .error .outOfRange ∨
      ∃ s : SlotSection, s.endSlot < s.beginSlot ∧
        findSections slots slotsPerSection edge (beginSlot - 1) beginSlot [] = .ok [s] := by
  unfold findSections
  have hmin : min (beginSlot - 1) (beginSlot + slotsPerSection - 1) = beginSlot - 1 := by omega
  have hhalf : beginSlot + (beginSlot - 1 - beginSlot).tdiv 2 = beginSlot := by
    rw [show beginSlot - 1 - beginSlot = -1 by omega]
    exact add_zero _
  cases hslot : slotAtChecked slots beginSlot with
  | none =>
      refine Or.inl ?_
      rw [findSectionsFrom, if_pos (by omega), if_pos (by omega)]
      dsimp only
      rw [hhalf, hslot]
  | some slot =>
      obtain ⟨s, hsb, hse, hstep⟩ := @findSectionsFrom_step slots slotsPerSection edge (beginSlot - 1)
        (slots.length + 1) 0 beginSlot [] (by omega) (by omega) hsize slot
        (by rw [hmin, hhalf]; exact hslot)
      refine Or.inr ⟨s, by omega, ?_⟩
      rw [hstep, findSectionsFrom, if_neg (by omega)]
      rfl

theorem findSections_small {beginSlot : Int} (hend : rangeEnd ≤ 0) :
    findSections slots slotsPerSection edge rangeEnd beginSlot [] = .ok [] := by
  rw [findSections, findSectionsFrom, if_neg (by omega)]

/-- The sections before are kept in front. -/
theorem findSectionsFrom_append (fuel : Nat) (endSlot beginSlot : Int)
    (sections before : List SlotSection) :
    findSectionsFrom slots slotsPerSection edge rangeEnd fuel endSlot beginSlot (before ++ sections) =
      (findSectionsFrom slots slotsPerSection edge rangeEnd fuel endSlot beginSlot sections).map
        (before ++ ·) := by
  induction fuel generalizing endSlot beginSlot sections with
  | zero => rfl
  | succ fuel ih =>
      rw [findSectionsFrom, findSectionsFrom]
      by_cases hgo : endSlot < rangeEnd
      · rw [if_pos hgo, if_pos hgo]
        dsimp only
        generalize (if rangeEnd < beginSlot + slotsPerSection - 1 then rangeEnd
          else beginSlot + slotsPerSection - 1) = last
        cases slotAtChecked slots (beginSlot + (last - beginSlot).tdiv 2) with
        | none => rfl
        | some slot =>
            dsimp only
            split_ifs
            · rfl
            · rw [List.append_assoc, ih]
      · rw [if_neg hgo, if_neg hgo]
        rfl

theorem findSections_append (beginSlot : Int) (sections : List SlotSection) :
    findSections slots slotsPerSection edge rangeEnd beginSlot sections =
      (findSections slots slotsPerSection edge rangeEnd beginSlot []).map (sections ++ ·) := by
  have h := @findSectionsFrom_append slots slotsPerSection edge rangeEnd (slots.length + 2) 0 beginSlot
    [] sections
  rwa [List.append_nil] at h

end Cut

end OpenRoad.Ppl
