import OpenRoad.PplSections

/-!
When the sections of a constraint interval are a partition of its slots. The search for the end of
the interval leaves out a slot at the end itself, and the cutting loses a slot that is left alone.
-/

namespace OpenRoad.Ppl

/-- The order of the slots along an edge: counted down on the top and left edges. -/
def slotOrder (edge : Edge) (s : Slot) : Int :=
  if edge = .bottom ∨ edge = .right then slotXY edge s else -slotXY edge s

/-- The slots of an edge and layer stand together, in the order of the edge. -/
structure SlotsOrdered (slots : List Slot) : Prop where
  together : ∀ i j k, i ≤ j → j ≤ k → k < slots.length →
    (slotAt slots i).edge = (slotAt slots k).edge → (slotAt slots i).layer = (slotAt slots k).layer →
    (slotAt slots j).edge = (slotAt slots i).edge ∧ (slotAt slots j).layer = (slotAt slots i).layer
  sorted : ∀ i j, i ≤ j → j < slots.length → (slotAt slots i).edge = (slotAt slots j).edge →
    (slotAt slots i).layer = (slotAt slots j).layer →
    slotOrder (slotAt slots i).edge (slotAt slots i) ≤ slotOrder (slotAt slots i).edge (slotAt slots j)

/-- The slot is of the layer and its position in the interval, both ends included. -/
structure InInterval (slots : List Slot) (interval : Interval) (layer : Int) (i : Nat) : Prop where
  lt : i < slots.length
  edge : (slotAt slots i).edge = interval.edge
  layer : (slotAt slots i).layer = layer
  first_le : interval.first ≤ slotXY interval.edge (slotAt slots i)
  le_last : slotXY interval.edge (slotAt slots i) ≤ interval.last

namespace Interval

/-- The end of the interval that the search reaches last. -/
def farEnd (interval : Interval) : Int :=
  if interval.edge = .bottom ∨ interval.edge = .right then interval.last else interval.first

/-- The ends of the interval in the order of the slots. -/
def orderFirst (interval : Interval) : Int :=
  if interval.edge = .bottom ∨ interval.edge = .right then interval.first else -interval.last

def orderLast (interval : Interval) : Int :=
  if interval.edge = .bottom ∨ interval.edge = .right then interval.last else -interval.first

end Interval

/-- The sections of one layer. -/
def sectionsOfLayer (slots : List Slot) (slotsPerSection : Int) (interval : Interval) (layer : Int) :
    Except SectionFault (List SlotSection) :=
  findSections slots slotsPerSection interval.edge (constraintStop slots interval layer - 1)
    (constraintBegin slots interval layer) []

section Layer

variable {slots : List Slot} {slotsPerSection : Int} {interval : Interval} {layer : Int}

theorem slotAt_eq_getElem {i : Nat} (hi : i < slots.length) : slotAt slots i = slots[i] := by
  simp [slotAt, List.getD_eq_getElem?_getD, List.getElem?_eq_getElem hi]

theorem reachesInterval_iff {s : Slot} :
    reachesInterval interval layer s = true ↔ s.edge = interval.edge ∧ s.layer = layer ∧
      interval.orderFirst ≤ slotOrder interval.edge s := by
  unfold reachesInterval Interval.orderFirst slotOrder
  split_ifs
  · simp [and_assoc]
  · simp [and_assoc]

theorem leavesInterval_eq_false {s : Slot} :
    leavesInterval interval layer s = false ↔ s.edge = interval.edge ∧ s.layer = layer ∧
      slotOrder interval.edge s < interval.orderLast := by
  unfold leavesInterval Interval.orderLast slotOrder
  split_ifs
  · simp only [Bool.or_eq_false_iff, decide_eq_false_iff_not, not_le, ne_eq, not_not]
    exact ⟨fun h => ⟨h.1.2, h.2, h.1.1⟩, fun h => ⟨⟨h.2.2, h.1⟩, h.2.1⟩⟩
  · simp only [Bool.or_eq_false_iff, decide_eq_false_iff_not, not_le, ne_eq, not_not, neg_lt_neg_iff]
    exact ⟨fun h => ⟨h.1.2, h.2, h.1.1⟩, fun h => ⟨⟨h.2.2, h.1⟩, h.2.1⟩⟩

theorem inInterval_iff {i : Nat} :
    InInterval slots interval layer i ↔ i < slots.length ∧ (slotAt slots i).edge = interval.edge ∧
      (slotAt slots i).layer = layer ∧
      interval.orderFirst ≤ slotOrder interval.edge (slotAt slots i) ∧
      slotOrder interval.edge (slotAt slots i) ≤ interval.orderLast := by
  unfold Interval.orderFirst Interval.orderLast slotOrder
  constructor
  · rintro ⟨hlt, hedge, hlayer, hfirst, hlast⟩
    refine ⟨hlt, hedge, hlayer, ?_⟩
    split_ifs <;> omega
  · rintro ⟨hlt, hedge, hlayer, hkeys⟩
    split_ifs at hkeys <;> exact ⟨hlt, hedge, hlayer, by omega, by omega⟩

theorem farEnd_ne_iff {s : Slot} :
    slotXY interval.edge s ≠ interval.farEnd ↔ slotOrder interval.edge s ≠ interval.orderLast := by
  unfold Interval.farEnd Interval.orderLast slotOrder
  split_ifs <;> omega

theorem constraintBegin_le : constraintBegin slots interval layer ≤ slots.length :=
  List.findIdx_le_length

theorem le_constraintStop :
    constraintBegin slots interval layer ≤ constraintStop slots interval layer :=
  Nat.le_add_right ..

theorem constraintStop_le : constraintStop slots interval layer ≤ slots.length := by
  have hle : (slots.drop (constraintBegin slots interval layer)).findIdx
      (leavesInterval interval layer) ≤ _ := List.findIdx_le_length
  rw [List.length_drop] at hle
  have := @constraintBegin_le slots interval layer
  unfold constraintStop
  omega

/-- The first slot of the search has the property, and none before it. -/
theorem constraintBegin_le_iff {i : Nat} (hi : i < slots.length)
    (h : reachesInterval interval layer (slotAt slots i) = true) :
    constraintBegin slots interval layer ≤ i := by
  by_contra hlt
  have hnot := List.not_of_lt_findIdx (not_le.mp hlt)
  rw [slotAt_eq_getElem hi] at h
  rw [h] at hnot
  cases hnot

theorem reaches_constraintBegin (h : constraintBegin slots interval layer < slots.length) :
    reachesInterval interval layer (slotAt slots (constraintBegin slots interval layer)) = true := by
  rw [slotAt_eq_getElem h]
  exact List.findIdx_getElem (w := h)

theorem stays_of_lt {i : Nat} (hbegin : constraintBegin slots interval layer ≤ i)
    (hstop : i < constraintStop slots interval layer) :
    leavesInterval interval layer (slotAt slots i) = false := by
  obtain ⟨k, rfl⟩ := Nat.exists_eq_add_of_le hbegin
  have hlt := hstop.trans_le constraintStop_le
  unfold constraintStop at hstop
  have hnot := List.not_of_lt_findIdx (Nat.add_lt_add_iff_left.mp hstop)
  rw [List.getElem_drop] at hnot
  rw [slotAt_eq_getElem hlt]
  exact hnot

theorem leaves_constraintStop (h : constraintStop slots interval layer < slots.length) :
    leavesInterval interval layer (slotAt slots (constraintStop slots interval layer)) = true := by
  have hdrop : (slots.drop (constraintBegin slots interval layer)).findIdx
      (leavesInterval interval layer) < (slots.drop (constraintBegin slots interval layer)).length := by
    rw [List.length_drop]
    unfold constraintStop at h
    omega
  have hfound := List.findIdx_getElem (w := hdrop)
  rw [List.getElem_drop] at hfound
  rw [slotAt_eq_getElem h]
  exact hfound

/-- The range that is searched: the slots of the interval but for its far end. -/
theorem mem_range_iff (hordered : SlotsOrdered slots) {i : Nat} :
    (constraintBegin slots interval layer ≤ i ∧ i < constraintStop slots interval layer) ↔
      InInterval slots interval layer i ∧ slotXY interval.edge (slotAt slots i) ≠ interval.farEnd := by
  rw [inInterval_iff, farEnd_ne_iff]
  constructor
  · rintro ⟨hbegin, hstop⟩
    have hlt := hstop.trans_le constraintStop_le
    obtain ⟨hedge, hlayer, hfar⟩ := leavesInterval_eq_false.mp (stays_of_lt hbegin hstop)
    obtain ⟨hedge', hlayer', hnear⟩ := reachesInterval_iff.mp
      (reaches_constraintBegin (hbegin.trans_lt hlt))
    have hsorted := hordered.sorted _ i hbegin hlt (hedge'.trans hedge.symm)
      (hlayer'.trans hlayer.symm)
    rw [hedge'] at hsorted
    exact ⟨⟨hlt, hedge, hlayer, hnear.trans hsorted, hfar.le⟩, hfar.ne⟩
  · rintro ⟨⟨hlt, hedge, hlayer, hnear, hle⟩, hne⟩
    have hbegin := constraintBegin_le_iff hlt (reachesInterval_iff.mpr ⟨hedge, hlayer, hnear⟩)
    refine ⟨hbegin, ?_⟩
    by_contra hge
    -- The slot at which the search has stopped is before the slot, but not before the far end.
    have hstop := (not_lt.mp hge).trans_lt hlt
    obtain ⟨hedge', hlayer', -⟩ := reachesInterval_iff.mp
      (reaches_constraintBegin (hbegin.trans_lt hlt))
    obtain ⟨hedgeStop, hlayerStop⟩ := hordered.together _ _ i le_constraintStop (not_lt.mp hge) hlt
      (hedge'.trans hedge.symm) (hlayer'.trans hlayer.symm)
    have hsorted := hordered.sorted _ i (not_lt.mp hge) hlt
      (hedgeStop.trans (hedge'.trans hedge.symm)) (hlayerStop.trans (hlayer'.trans hlayer.symm))
    rw [hedgeStop, hedge'] at hsorted
    have hleaves := leaves_constraintStop hstop
    have hstays : leavesInterval interval layer
        (slotAt slots (constraintStop slots interval layer)) = false :=
      leavesInterval_eq_false.mpr ⟨hedgeStop.trans hedge', hlayerStop.trans hlayer', by omega⟩
    rw [hstays] at hleaves
    cases hleaves

/-! ### One layer -/

/-- The sections of a layer are what they are for. -/
structure LayerRight (slots : List Slot) (slotsPerSection : Int) (interval : Interval) (layer : Int)
    (sections : List SlotSection) : Prop where
  nonempty : ∀ s ∈ sections, s.beginSlot ≤ s.endSlot
  size : ∀ s ∈ sections, s.endSlot - s.beginSlot + 1 ≤ slotsPerSection
  disjoint : sections.Pairwise fun a b => a.endSlot < b.beginSlot ∨ b.endSlot < a.beginSlot
  inVector : ∀ s ∈ sections, 0 ≤ s.beginSlot ∧ s.endSlot < slots.length
  exact : ∀ i : Nat, (∃ s ∈ sections, s.beginSlot ≤ i ∧ i ≤ s.endSlot) ↔
    InInterval slots interval layer i

/-- When they are. -/
structure LayerFits (slots : List Slot) (slotsPerSection : Int) (interval : Interval) (layer : Int) :
    Prop where
  /-- No slot is at the far end of the interval. -/
  far : ∀ i, InInterval slots interval layer i →
    slotXY interval.edge (slotAt slots i) ≠ interval.farEnd
  /-- Where the interval has no slot, the first slot beyond its near end is the slot 0 or 1, or there
  is none and the vector has at most one slot. -/
  none : (∀ i, ¬InInterval slots interval layer i) → slots.length ≤ 1 ∨
    ∃ i ≤ 1, i < slots.length ∧ reachesInterval interval layer (slotAt slots i) = true
  /-- The last slot is not alone behind full sections, and the slot 0 not alone in the interval. -/
  some : ∀ first last : Nat, first ≤ last →
    (∀ i, InInterval slots interval layer i ↔ first ≤ i ∧ i ≤ last) →
    slotsPerSection ∣ (last : Int) - first → first = last ∧ last ≠ 0

/-- What the cutting makes of the range that was found: of one with slots, of an empty one, and of
one that is empty at the start of the vector. -/
theorem sectionsOfLayer_cases (hsize : 0 < slotsPerSection) :
    (∃ last sections, constraintStop slots interval layer = last + 1 ∧
      constraintBegin slots interval layer ≤ last ∧
      sectionsOfLayer slots slotsPerSection interval layer = .ok sections ∧
      Covers slotsPerSection (constraintBegin slots interval layer)
        (if slotsPerSection ∣ (last : Int) - constraintBegin slots interval layer ∧
          (constraintBegin slots interval layer = last → last = 0) then last else last + 1)
        sections) ∨
    (constraintStop slots interval layer = constraintBegin slots interval layer ∧
      1 < constraintBegin slots interval layer ∧
      ∀ sections, sectionsOfLayer slots slotsPerSection interval layer = .ok sections →
        ∃ s : SlotSection, s.endSlot < s.beginSlot ∧ sections = [s]) ∨
    (constraintStop slots interval layer = constraintBegin slots interval layer ∧
      constraintBegin slots interval layer ≤ 1 ∧
      sectionsOfLayer slots slotsPerSection interval layer = .ok []) := by
  have hstop := @constraintStop_le slots interval layer
  unfold sectionsOfLayer
  rcases (@le_constraintStop slots interval layer).lt_or_eq with hlt | heq
  · obtain ⟨last, hlast⟩ : ∃ last, constraintStop slots interval layer = last + 1 :=
      ⟨constraintStop slots interval layer - 1, by omega⟩
    have hcast : ((constraintStop slots interval layer : Nat) : Int) - 1 = last := by omega
    obtain ⟨sections, hsections, hcovers⟩ := @findSections_slots slots slotsPerSection interval.edge
      last (constraintBegin slots interval layer) (by omega) (by omega) (by omega) hsize
    refine Or.inl ⟨last, sections, hlast, by omega, by rw [hcast]; exact hsections, ?_⟩
    simpa only [Nat.cast_inj, Nat.cast_eq_zero] using hcovers
  · rw [← heq]
    rcases Nat.lt_or_ge 1 (constraintBegin slots interval layer) with hlarge | hsmall
    · refine Or.inr (Or.inl ⟨rfl, hlarge, fun sections h => ?_⟩)
      rcases @findSections_empty slots slotsPerSection interval.edge
        (constraintBegin slots interval layer) (by omega) hsize with herror | ⟨s, hs, hok⟩
      · rw [herror] at h
        cases h
      · rw [hok] at h
        exact ⟨s, hs, (Except.ok.inj h).symm⟩
    · exact Or.inr (Or.inr ⟨rfl, hsmall, findSections_small (by omega)⟩)

/-- The slots of the sections of a layer are of the layer. -/
theorem sectionsOfLayer_layer (hsize : 0 < slotsPerSection) {sections : List SlotSection}
    (h : sectionsOfLayer slots slotsPerSection interval layer = .ok sections) {s : SlotSection}
    (hs : s ∈ sections) {i : Nat} (hbegin : s.beginSlot ≤ i) (hend : i ≤ s.endSlot) :
    (slotAt slots i).edge = interval.edge ∧ (slotAt slots i).layer = layer := by
  rcases @sectionsOfLayer_cases slots slotsPerSection interval layer hsize with
    ⟨last, sections', hlast, -, hok, hcovers⟩ | ⟨-, -, hempty⟩ | ⟨-, -, hok⟩
  · obtain rfl := Except.ok.inj (hok.symm.trans h)
    obtain ⟨hge, hlt⟩ := (hcovers.mem_iff i).mp ⟨s, hs, hbegin, hend⟩
    have hlt' : (i : Int) < last + 1 := by
      split_ifs at hlt <;> omega
    obtain ⟨hedge, hlayer, -⟩ := leavesInterval_eq_false.mp
      (@stays_of_lt slots interval layer i (by omega) (by omega))
    exact ⟨hedge, hlayer⟩
  · obtain ⟨s', hs', rfl⟩ := hempty sections h
    obtain rfl := List.mem_singleton.mp hs
    omega
  · obtain rfl := Except.ok.inj (hok.symm.trans h)
    cases hs

theorem sectionsOfLayer_right_iff (hordered : SlotsOrdered slots) (hsize : 0 < slotsPerSection) :
    (∃ sections, sectionsOfLayer slots slotsPerSection interval layer = .ok sections ∧
      LayerRight slots slotsPerSection interval layer sections) ↔
      LayerFits slots slotsPerSection interval layer := by
  have hrange := fun i => @mem_range_iff slots interval layer hordered i
  have hlength := @constraintStop_le slots interval layer
  have hnone : constraintStop slots interval layer = constraintBegin slots interval layer →
      (∀ i, InInterval slots interval layer i →
        slotXY interval.edge (slotAt slots i) ≠ interval.farEnd) →
      ∀ i, ¬InInterval slots interval layer i := by
    intro heq hfar i hi
    have := (hrange i).mpr ⟨hi, hfar i hi⟩
    omega
  rcases @sectionsOfLayer_cases slots slotsPerSection interval layer hsize with
    ⟨last, sections, hlast, hle, hok, hcovers⟩ | ⟨heq, hlarge, hempty⟩ | ⟨heq, hsmall, hok⟩
  · constructor
    · rintro ⟨sections', hok', hright⟩
      obtain rfl := Except.ok.inj (hok.symm.trans hok')
      have hexact : ∀ i : Nat, InInterval slots interval layer i ↔ _ := fun i =>
        (hright.exact i).symm.trans (hcovers.mem_iff i)
      have hfar : ∀ i, InInterval slots interval layer i →
          slotXY interval.edge (slotAt slots i) ≠ interval.farEnd := by
        intro i hi
        have hmem := (hexact i).mp hi
        refine ((hrange i).mp ⟨by omega, ?_⟩).2
        have hlt := hmem.2
        split_ifs at hlt <;> omega
      refine ⟨hfar, fun hnone => ?_, fun first last' hfl hiff hdvd => ?_⟩
      · exact absurd ((hrange _).mp ⟨le_rfl, by omega⟩).1 (hnone _)
      · -- The slots of the interval are the range.
        have hboth : ∀ i : Nat, (first ≤ i ∧ i ≤ last') ↔
            constraintBegin slots interval layer ≤ i ∧ i < constraintStop slots interval layer :=
          fun i => (hiff i).symm.trans
            ⟨fun h => (hrange i).mpr ⟨h, hfar i h⟩, fun h => ((hrange i).mp h).1⟩
        have h1 := (hboth first).mp ⟨le_rfl, hfl⟩
        have h2 := (hboth last').mp ⟨hfl, le_rfl⟩
        have h3 := (hboth (constraintBegin slots interval layer)).mpr ⟨le_rfl, by omega⟩
        have h4 := (hboth last).mpr ⟨hle, by omega⟩
        have hfirst : first = constraintBegin slots interval layer := by omega
        have hlast' : last' = last := by omega
        by_contra hcontra
        have hmem := ((hexact last).mp ((hiff last).mpr h4)).2
        rw [if_pos] at hmem
        · exact lt_irrefl _ hmem
        · rw [hfirst, hlast'] at hdvd
          refine ⟨hdvd, fun h => ?_⟩
          by_contra h0
          exact hcontra ⟨by omega, by omega⟩
    · intro hfits
      have hin : ∀ i, InInterval slots interval layer i ↔
          constraintBegin slots interval layer ≤ i ∧ i ≤ last := by
        intro i
        have hiff := hrange i
        rw [hlast, Nat.lt_succ_iff] at hiff
        exact ⟨fun h => hiff.mpr ⟨h, hfits.far i h⟩, fun h => (hiff.mp h).1⟩
      have hwhole : ¬(slotsPerSection ∣ (last : Int) - constraintBegin slots interval layer ∧
          (constraintBegin slots interval layer = last → last = 0)) := by
        rintro ⟨hdvd, hone⟩
        obtain ⟨h1, h2⟩ := hfits.some _ last hle hin hdvd
        exact h2 (hone h1)
      rw [if_neg hwhole] at hcovers
      refine ⟨sections, hok, hcovers.nonempty, hcovers.size, hcovers.ordered.imp Or.inl,
        fun s hs => ?_, fun i => ?_⟩
      · have hbounds := hcovers.bounds hs
        omega
      · rw [hcovers.mem_iff, hin]
        omega
  · constructor
    · rintro ⟨sections, hok, hright⟩
      obtain ⟨s, hs, rfl⟩ := hempty sections hok
      have := hright.nonempty s (List.mem_singleton_self s)
      omega
    · intro hfits
      rcases hfits.none (hnone heq hfits.far) with hlen | ⟨i, hi, hlt, hreach⟩
      · have := @constraintBegin_le slots interval layer
        omega
      · have := constraintBegin_le_iff hlt hreach
        omega
  · constructor
    · rintro ⟨sections, hok', hright⟩
      obtain rfl := Except.ok.inj (hok.symm.trans hok')
      have hno : ∀ i, ¬InInterval slots interval layer i := fun i hi => by
        obtain ⟨s, hs, -⟩ := (hright.exact i).mpr hi
        cases hs
      refine ⟨fun i hi => absurd hi (hno i), fun _ => ?_,
        fun first last hle hiff => absurd ((hiff first).mpr ⟨le_rfl, hle⟩) (hno first)⟩
      rcases (@constraintBegin_le slots interval layer).lt_or_eq with hlt | hlen
      · exact Or.inr ⟨_, hsmall, hlt, reaches_constraintBegin hlt⟩
      · exact Or.inl (by omega)
    · intro hfits
      refine ⟨[], hok, by simp, by simp, List.Pairwise.nil, by simp, fun i => ?_⟩
      simpa using hnone heq hfits.far i

end Layer

/-! ### All layers of the edge -/

/-- The sections of a layer, where they could be made. -/
def sectionsMade (slots : List Slot) (slotsPerSection : Int) (interval : Interval) (layer : Int) :
    List SlotSection :=
  match sectionsOfLayer slots slotsPerSection interval layer with
  | .ok sections => sections
  | .error _ => []

/-- The layers that the slots of an edge can be on. -/
def edgeLayers (horLayers verLayers : List Int) (edge : Edge) : List Int :=
  if edge = .left ∨ edge = .right then horLayers else verLayers

section Layers

variable {slots : List Slot} {slotsPerSection : Int} {interval : Interval}

theorem sectionsMade_eq {layer : Int} {sections : List SlotSection}
    (h : sectionsOfLayer slots slotsPerSection interval layer = .ok sections) :
    sectionsMade slots slotsPerSection interval layer = sections := by
  rw [sectionsMade, h]

theorem layerSections_ok {layers : List Int} {firstLayer : Bool} {C C' : ConstraintSections}
    (h : layerSections slots slotsPerSection interval layers firstLayer C = .ok C') :
    (∀ layer ∈ layers, sectionsOfLayer slots slotsPerSection interval layer =
      .ok (sectionsMade slots slotsPerSection interval layer)) ∧
      C'.sections = C.sections ++ layers.flatMap (sectionsMade slots slotsPerSection interval) := by
  induction layers generalizing firstLayer C with
  | nil =>
      obtain rfl : C = C' := Except.ok.inj h
      simp
  | cons layer layers ih =>
      rw [layerSections] at h
      rw [findSections_append] at h
      cases hlayer : sectionsOfLayer slots slotsPerSection interval layer with
      | error e =>
          rw [sectionsOfLayer] at hlayer
          rw [hlayer] at h
          cases h
      | ok sections =>
          have hmade := sectionsMade_eq hlayer
          rw [sectionsOfLayer] at hlayer
          rw [hlayer] at h
          obtain ⟨hall, hsections⟩ := ih h
          refine ⟨List.forall_mem_cons.mpr ⟨?_, hall⟩, ?_⟩
          · rw [hmade]
            exact hlayer
          · rw [hsections, List.flatMap_cons, hmade, List.append_assoc]

theorem layerSections_of_ok {layers : List Int}
    (h : ∀ layer ∈ layers, ∃ sections,
      sectionsOfLayer slots slotsPerSection interval layer = .ok sections)
    (firstLayer : Bool) (C : ConstraintSections) :
    ∃ C', layerSections slots slotsPerSection interval layers firstLayer C = .ok C' := by
  induction layers generalizing firstLayer C with
  | nil => exact ⟨C, rfl⟩
  | cons layer layers ih =>
      obtain ⟨⟨sections, hlayer⟩, hrest⟩ := List.forall_mem_cons.mp h
      rw [sectionsOfLayer] at hlayer
      rw [layerSections]
      rw [findSections_append, hlayer]
      exact ih hrest _ _

/-- The sections of a constraint are a partition of the slots of its interval: not empty, pairwise
disjoint, each of one layer of the edge and of at most the configured number of slots. -/
structure SectionsRight (slots : List Slot) (slotsPerSection : Int) (interval : Interval)
    (layers : List Int) (sections : List SlotSection) : Prop where
  nonempty : ∀ s ∈ sections, s.beginSlot ≤ s.endSlot
  size : ∀ s ∈ sections, s.endSlot - s.beginSlot + 1 ≤ slotsPerSection
  disjoint : sections.Pairwise fun a b => a.endSlot < b.beginSlot ∨ b.endSlot < a.beginSlot
  inVector : ∀ s ∈ sections, 0 ≤ s.beginSlot ∧ s.endSlot < slots.length
  oneSide : ∀ s ∈ sections, ∃ layer ∈ layers, ∀ i : Nat, s.beginSlot ≤ i → i ≤ s.endSlot →
    (slotAt slots i).edge = interval.edge ∧ (slotAt slots i).layer = layer
  exact : ∀ i : Nat, (∃ s ∈ sections, s.beginSlot ≤ i ∧ i ≤ s.endSlot) ↔
    ∃ layer ∈ layers, InInterval slots interval layer i

/-- The sections of a constraint interval are a partition of its slots if and only if every layer of
its edge fits. -/
theorem createSectionsPerConstraint_right_iff (hordered : SlotsOrdered slots)
    (hsize : 0 < slotsPerSection) {horLayers verLayers : List Int} (hhor : horLayers.Nodup)
    (hver : verLayers.Nodup) (topLayer : List SlotSection) (hedge : interval.edge ≠ .invalid)
    (firstSlot lastSlot : Int) :
    (∃ C, createSectionsPerConstraint slots slotsPerSection horLayers verLayers topLayer interval
        firstSlot lastSlot = .ok C ∧
      SectionsRight slots slotsPerSection interval (edgeLayers horLayers verLayers interval.edge)
        C.sections) ↔
      ∀ layer ∈ edgeLayers horLayers verLayers interval.edge,
        LayerFits slots slotsPerSection interval layer := by
  have hnodup : (edgeLayers horLayers verLayers interval.edge).Nodup := by
    unfold edgeLayers
    split_ifs
    · exact hhor
    · exact hver
  unfold createSectionsPerConstraint
  rw [if_pos hedge]
  change (∃ C, layerSections slots slotsPerSection interval
    (edgeLayers horLayers verLayers interval.edge) true _ = .ok C ∧ _) ↔ _
  generalize edgeLayers horLayers verLayers interval.edge = layers at hnodup ⊢
  constructor
  · rintro ⟨C, hC, hright⟩ layer hlayer
    obtain ⟨hok, hsections⟩ := layerSections_ok hC
    rw [List.nil_append] at hsections
    have hmem : ∀ {l}, l ∈ layers → ∀ s ∈ sectionsMade slots slotsPerSection interval l,
        s ∈ C.sections := fun hl s hs => by
      rw [hsections]
      exact List.mem_flatMap.mpr ⟨_, hl, hs⟩
    refine (sectionsOfLayer_right_iff hordered hsize).mp ⟨_, hok layer hlayer,
      fun s hs => hright.nonempty s (hmem hlayer s hs), fun s hs => hright.size s (hmem hlayer s hs),
      ?_, fun s hs => hright.inVector s (hmem hlayer s hs), fun i => ⟨?_, fun hi => ?_⟩⟩
    · have hdisjoint := hright.disjoint
      rw [hsections] at hdisjoint
      exact (List.pairwise_flatMap.mp hdisjoint).1 layer hlayer
    · rintro ⟨s, hs, hbegin, hend⟩
      obtain ⟨layer', -, hin⟩ := (hright.exact i).mp ⟨s, hmem hlayer s hs, hbegin, hend⟩
      have hof := (sectionsOfLayer_layer hsize (hok layer hlayer) hs hbegin hend).2
      exact (hin.layer.symm.trans hof) ▸ hin
    · obtain ⟨s, hs, hbegin, hend⟩ := (hright.exact i).mpr ⟨layer, hlayer, hi⟩
      rw [hsections, List.mem_flatMap] at hs
      obtain ⟨layer', hlayer', hs⟩ := hs
      have hof := (sectionsOfLayer_layer hsize (hok layer' hlayer') hs hbegin hend).2
      obtain rfl : layer' = layer := hof.symm.trans hi.layer
      exact ⟨s, hs, hbegin, hend⟩
  · intro hfits
    have hall : ∀ layer ∈ layers, ∃ sections,
        sectionsOfLayer slots slotsPerSection interval layer = .ok sections ∧
          LayerRight slots slotsPerSection interval layer sections := fun layer hlayer =>
      (sectionsOfLayer_right_iff hordered hsize).mpr (hfits layer hlayer)
    obtain ⟨C, hC⟩ := layerSections_of_ok (fun layer hlayer => by
      obtain ⟨sections, hok, -⟩ := hall layer hlayer
      exact ⟨sections, hok⟩) true ⟨firstSlot, lastSlot, []⟩
    obtain ⟨hok, hsections⟩ := layerSections_ok hC
    rw [List.nil_append] at hsections
    have hmade : ∀ layer ∈ layers, LayerRight slots slotsPerSection interval layer
        (sectionsMade slots slotsPerSection interval layer) := by
      intro layer hlayer
      obtain ⟨sections, hok', hright⟩ := hall layer hlayer
      rw [sectionsMade_eq hok']
      exact hright
    have hof : ∀ s ∈ C.sections, ∃ layer ∈ layers,
        s ∈ sectionsMade slots slotsPerSection interval layer := by
      intro s hs
      rwa [hsections, List.mem_flatMap] at hs
    refine ⟨C, hC, fun s hs => ?_, fun s hs => ?_, ?_, fun s hs => ?_, fun s hs => ?_, fun i => ?_⟩
    · obtain ⟨layer, hlayer, hs⟩ := hof s hs
      exact (hmade layer hlayer).nonempty s hs
    · obtain ⟨layer, hlayer, hs⟩ := hof s hs
      exact (hmade layer hlayer).size s hs
    · rw [hsections, List.pairwise_flatMap]
      refine ⟨fun layer hlayer => (hmade layer hlayer).disjoint, ?_⟩
      -- A slot of two sections of different layers would be of both layers.
      refine hnodup.imp_of_mem fun {a b} ha hb hne s hs t ht => ?_
      by_contra hover
      have hsn := (hmade a ha).nonempty s hs
      have htn := (hmade b hb).nonempty t ht
      have hsv := (hmade a ha).inVector s hs
      have htv := (hmade b hb).inVector t ht
      obtain ⟨i, hi⟩ : ∃ i : Nat, (i : Int) = max s.beginSlot t.beginSlot :=
        ⟨(max s.beginSlot t.beginSlot).toNat, by omega⟩
      have hla := (sectionsOfLayer_layer hsize (hok a ha) hs (by omega) (by omega : (i : Int) ≤ _)).2
      have hlb := (sectionsOfLayer_layer hsize (hok b hb) ht (by omega) (by omega : (i : Int) ≤ _)).2
      exact hne (hla.symm.trans hlb)
    · obtain ⟨layer, hlayer, hs⟩ := hof s hs
      exact (hmade layer hlayer).inVector s hs
    · obtain ⟨layer, hlayer, hs⟩ := hof s hs
      exact ⟨layer, hlayer, fun i hbegin hend =>
        sectionsOfLayer_layer hsize (hok layer hlayer) hs hbegin hend⟩
    · constructor
      · rintro ⟨s, hs, hin⟩
        obtain ⟨layer, hlayer, hs⟩ := hof s hs
        exact ⟨layer, hlayer, ((hmade layer hlayer).exact i).mp ⟨s, hs, hin⟩⟩
      · rintro ⟨layer, hlayer, hin⟩
        obtain ⟨s, hs, hslot⟩ := ((hmade layer hlayer).exact i).mpr hin
        refine ⟨s, ?_, hslot⟩
        rw [hsections]
        exact List.mem_flatMap.mpr ⟨layer, hlayer, hs⟩

end Layers

/-- Four slots on the bottom edge. -/
def fourSlots : List Slot :=
  (List.range 4).map fun i : Nat => ⟨false, false, ⟨10 * i, 0⟩, 2, .bottom⟩

theorem slotsOrdered_fourSlots : SlotsOrdered fourSlots := by
  have hlen : fourSlots.length = 4 := rfl
  have hget : ∀ i < 4, slotAt fourSlots i = ⟨false, false, ⟨10 * i, 0⟩, 2, .bottom⟩ := by
    decide
  refine ⟨fun i j k hij hjk hk _ _ => ?_, fun i j hij hj _ _ => ?_⟩
  · rw [hget i (by omega), hget j (by omega)]
    exact ⟨rfl, rfl⟩
  · rw [hget i (by omega), hget j (by omega)]
    simp only [slotOrder, slotXY]
    simpa using hij

theorem createSectionsPerConstraint_fourSlots :
    (∃ C, createSectionsPerConstraint fourSlots 3 [] [2] [] ⟨.bottom, 0, 35⟩ (-1) (-1) = .ok C ∧
      SectionsRight fourSlots 3 ⟨.bottom, 0, 35⟩ (edgeLayers [] [2] .bottom) C.sections) ↔
      ∀ layer ∈ edgeLayers [] [2] .bottom, LayerFits fourSlots 3 ⟨.bottom, 0, 35⟩ layer :=
  createSectionsPerConstraint_right_iff slotsOrdered_fourSlots (by decide) (by decide) (by decide) []
    (by decide) (-1) (-1)

/-- The interval ends at the position of the last slot, which is left out. -/
theorem not_createSectionsPerConstraint_right :
    ¬∀ (slots : List Slot) (slotsPerSection : Int) (horLayers verLayers : List Int)
      (topLayer : List SlotSection) (interval : Interval) (firstSlot lastSlot : Int),
      SlotsOrdered slots → 0 < slotsPerSection → horLayers.Nodup → verLayers.Nodup →
      interval.edge ≠ .invalid →
      ∃ C, createSectionsPerConstraint slots slotsPerSection horLayers verLayers topLayer interval
          firstSlot lastSlot = .ok C ∧
        SectionsRight slots slotsPerSection interval (edgeLayers horLayers verLayers interval.edge)
          C.sections := by
  intro hall
  obtain ⟨C, hC, hright⟩ := hall fourSlots 200 [] [2] [] ⟨.bottom, 0, 30⟩ (-1) (-1)
    slotsOrdered_fourSlots (by decide) (by decide) (by decide) (by decide)
  have hmade : createSectionsPerConstraint fourSlots 200 [] [2] [] ⟨.bottom, 0, 30⟩ (-1) (-1) =
      .ok ⟨0, 2, [⟨⟨10, 0⟩, 3, 0, 2, 0, .bottom⟩]⟩ := by decide
  obtain rfl := Except.ok.inj (hmade.symm.trans hC)
  obtain ⟨s, hs, -, hend⟩ := (hright.exact 3).mpr
    ⟨2, by decide, by decide, by decide, by decide, by decide, by decide⟩
  obtain rfl := List.mem_singleton.mp hs
  exact absurd hend (by decide)

end OpenRoad.Ppl
