import OpenRoad.PplGroupMatrix
import Mathlib.Data.List.Nodup

/-!
The groups of a section are put on the windows that the solver of the assignment problem has
matched their columns with. The solver may match a column with a window that is too small, and the
slots are not looked at again; a group is on a free run of its own exactly when its window is large
enough, no slot of it is used, and no earlier pin has its mirrored pin there.
-/

namespace OpenRoad.Ppl

open Db (Point Rect)

/-- A pin as it is pushed to `assignment`; `slot` is the slot its position is read from. -/
structure PlacedPin where
  pin : Nat
  slot : Nat
  pos : Point
  layer : Int
  edge : Edge
  deriving DecidableEq

structure Placing where
  slots : List Slot
  nonBlockedSlots : Int
  assignment : List PlacedPin
  deriving DecidableEq

/-- A group with the window it is put on. -/
structure Taken where
  group : PinGroup
  window : Window
  deriving DecidableEq

def markUsed (slots : List Slot) (i : Nat) : List Slot :=
  slots.modify i fun slot => { slot with used := true }

def markTaken (slots : List Slot) (i : Nat) : List Slot :=
  slots.modify i fun slot => { slot with used := true, blocked := true }

def getSlotIdxByPosition (slots : List Slot) (position : Point) (layer : Int) : Option Nat :=
  slots.findIdx? fun slot => slot.pos = position ∧ slot.layer = layer

def getMirroredEdge : Edge → Edge
  | .bottom => .top
  | .top => .bottom
  | .left => .right
  | .right => .left
  | .invalid => .invalid

def Netlist.groupHasMirroredPin (N : Netlist) (group : PinGroup) : Bool :=
  group.pins.any fun idx => (N.ioPin idx).mirrored.isSome

def assignMirroredPins (boundary : Rect) (placed : PlacedPin) (mirrored : Nat) (P : Placing) :
    Except GroupError Placing :=
  let pos := getMirroredPosition boundary placed.pos
  match getSlotIdxByPosition P.slots pos placed.layer with
  | none => .error (.mirroredPosition pos placed.layer mirrored)
  | some i =>
      if (slotAt P.slots i).used = true then .error (.mirroredPosition pos placed.layer mirrored)
      else .ok { P with
        slots := markUsed P.slots i
        assignment := P.assignment ++
          [⟨mirrored, i, pos, placed.layer, getMirroredEdge placed.edge⟩] }

namespace Section

variable (S : Section) (N : Netlist) (boundary : Rect)

/-- Pins are counted down on the top and left edges where the group is ordered. -/
def pinOffset (group : PinGroup) (k : Nat) : Nat :=
  if (S.edge = .top ∨ S.edge = .left) ∧ group.order = true then group.pins.length - 1 - k else k

/-- The pins of a group with their slots. -/
def pinSlots (t : Taken) : List (Nat × Nat) :=
  t.group.pins.zipIdx.map fun (pin, k) => (pin, t.window.start + S.pinOffset t.group k)

def placePin (P : Placing) (pin slotIndex : Nat) : Except GroupError Placing :=
  let slot := slotAt P.slots slotIndex
  let placed : PlacedPin := ⟨pin, slotIndex, slot.pos, slot.layer, slot.edge⟩
  let P' : Placing :=
    { slots := markTaken P.slots slotIndex
      nonBlockedSlots :=
        if slotIndex ≤ S.endSlot then P.nonBlockedSlots - 1 else P.nonBlockedSlots
      assignment := P.assignment ++ [placed] }
  match (N.ioPin pin).mirrored with
  | some mirrored => assignMirroredPins boundary placed mirrored P'
  | none => .ok P'

def placePins : List (Nat × Nat) → Placing → Except GroupError Placing
  | [], P => .ok P
  | (pin, slotIndex) :: rest, P => do placePins rest (← S.placePin N boundary P pin slotIndex)

end Section

/-- The first row that is matched with the column. -/
def findWindow (windows : List Window) (assignment : List Int) (col : Nat) : Option Window :=
  ((List.range windows.length).find? fun row => assignment[row]? = some (col : Int)).bind
    (windows[·]?)

/-- Groups with mirrored pins are placed in one round and the others in another. -/
def skipsGroup (N : Netlist) (onlyMirrored : Bool) (group : PinGroup) : Bool :=
  (onlyMirrored && !N.groupHasMirroredPin group) || (!onlyMirrored && N.groupHasMirroredPin group)

namespace Section

variable (S : Section) (N : Netlist) (boundary : Rect) (onlyMirrored : Bool)
  (windows : List Window) (assignment : List Int)

/-- The loop over the groups. The column is not counted on where a group is skipped. -/
def assignGroups : List PinGroup → Nat → Placing → Except GroupError (Placing × List Taken)
  | [], _, P => .ok (P, [])
  | group :: groups, col, P =>
      if skipsGroup N onlyMirrored group = true then assignGroups groups col P
      else
        match findWindow windows assignment col with
        | none => .error (.groupNotAssigned group.pins.length)
        | some window => do
            let P ← S.placePins N boundary (S.pinSlots ⟨group, window⟩) P
            let (P, taken) ← assignGroups groups (col + 1) P
            return (P, ⟨group, window⟩ :: taken)

/-- `getAssignmentForGroups`, with the windows that the groups are put on. -/
def getAssignmentForGroups (matrix : List (List Int)) (P : Placing) :
    Except GroupError (Placing × List Taken) :=
  if matrix = [] then .ok (P, [])
  else S.assignGroups N boundary onlyMirrored windows assignment S.groups 0 P

/-- The groups of this round with the windows that their columns are matched with. -/
def chosen : List PinGroup → Nat → List Taken
  | [], _ => []
  | group :: groups, col =>
      if skipsGroup N onlyMirrored group = true then chosen groups col
      else
        match findWindow windows assignment col with
        | none => chosen groups (col + 1)
        | some window => ⟨group, window⟩ :: chosen groups (col + 1)

end Section

/-- The slot of the mirrored pin of a pin, where it has one. -/
def mirrorSlot (N : Netlist) (boundary : Rect) (slots : List Slot) (p : Nat × Nat) : Option Nat :=
  if (N.ioPin p.1).mirrored.isSome = true then
    getSlotIdxByPosition slots (getMirroredPosition boundary (slotAt slots p.2).pos)
      (slotAt slots p.2).layer
  else none

/-! ### What is claimed -/

/-- Each group of the round is on a run of consecutive, available slots of the section, the runs of
different groups do not overlap, and no two pins are at one slot. -/
structure GroupsSound (S : Section) (N : Netlist) (onlyMirrored : Bool) (P : Placing)
    (out : Placing × List Taken) : Prop where
  groups : out.2.map (·.group) = S.groups.filter fun group => !skipsGroup N onlyMirrored group
  whole : ∀ t ∈ out.2, ∀ k pin, t.group.pins[k]? = some pin →
    let slotIndex := t.window.start + S.pinOffset t.group k
    let slot := slotAt P.slots slotIndex
    ⟨pin, slotIndex, slot.pos, slot.layer, slot.edge⟩ ∈ out.1.assignment
  inSection : ∀ t ∈ out.2, S.beginSlot ≤ t.window.start ∧
    t.window.start + t.group.pins.length ≤ S.endSlot + 1
  available : ∀ t ∈ out.2, ∀ k < t.group.pins.length,
    (slotAt P.slots (t.window.start + k)).isAvailable = true
  disjoint : out.2.Pairwise fun a b =>
    a.window.start + a.group.pins.length ≤ b.window.start ∨
      b.window.start + b.group.pins.length ≤ a.window.start
  noOverlap : ((out.1.assignment.drop P.assignment.length).map (·.slot)).Nodup

/-- The windows of the groups are large enough, none of their slots is used, and none is the slot
of the mirrored pin of a pin placed before. -/
structure GroupsFit (S : Section) (N : Netlist) (boundary : Rect) (slots : List Slot)
    (taken : List Taken) : Prop where
  fits : ∀ t ∈ taken, t.group.pins.length ≤ t.window.capacity
  unused : ∀ t ∈ taken, ∀ k < t.group.pins.length,
    (slotAt slots (t.window.start + k)).used = false
  apart : (taken.flatMap S.pinSlots).Pairwise fun a b =>
    mirrorSlot N boundary slots a ≠ some b.2

/-! ### Marks on the slots -/

section Marks

variable {slots : List Slot} {f : Slot → Slot}

theorem slotAt_modify (i j : Nat) (hj : j < slots.length) :
    slotAt (slots.modify i f) j = if i = j then f (slotAt slots j) else slotAt slots j := by
  simp only [slotAt, List.getD_eq_getElem?_getD, List.getElem?_modify,
    List.getElem?_eq_getElem hj, Option.getD_some]
  split <;> simp_all

theorem slotAt_of_le {i : Nat} (h : slots.length ≤ i) : slotAt slots i = default := by
  simp [slotAt, List.getD_eq_getElem?_getD, List.getElem?_eq_none h]

end Marks

/-- The slots of a run: only the marks have changed, and a slot is in use where it was before or is
the slot of a pin placed since. -/
structure Marked (slots slots' : List Slot) (placed : List PlacedPin) : Prop where
  length : slots'.length = slots.length
  pos : ∀ i, (slotAt slots' i).pos = (slotAt slots i).pos
  layer : ∀ i, (slotAt slots' i).layer = (slotAt slots i).layer
  edge : ∀ i, (slotAt slots' i).edge = (slotAt slots i).edge
  used : ∀ i < slots.length, (slotAt slots' i).used = true ↔
    (slotAt slots i).used = true ∨ i ∈ placed.map (·.slot)

namespace Marked

variable {slots slots' : List Slot} {placed : List PlacedPin}

theorem refl (slots : List Slot) : Marked slots slots [] :=
  ⟨rfl, fun _ => rfl, fun _ => rfl, fun _ => rfl, fun _ _ => by simp⟩

theorem modify (h : Marked slots slots' placed) (p : PlacedPin) {f : Slot → Slot}
    (hf : ∀ s : Slot, (f s).used = true ∧ (f s).pos = s.pos ∧ (f s).layer = s.layer ∧
      (f s).edge = s.edge) :
    Marked slots (slots'.modify p.slot f) (placed ++ [p]) := by
  have hsame : ∀ (g : Slot → Prop) i, (∀ s, g (f s) ↔ g s) →
      (g (slotAt (slots'.modify p.slot f) i) ↔ g (slotAt slots' i)) := by
    intro g i hg
    rcases Nat.lt_or_ge i slots'.length with hi | hi
    · rw [slotAt_modify _ _ hi]
      split
      · exact hg _
      · rfl
    · rw [slotAt_of_le hi, slotAt_of_le (by simpa using hi)]
  refine ⟨by simpa using h.length, fun i => ?_, fun i => ?_, fun i => ?_, fun i hi => ?_⟩
  · exact (hsame (·.pos = (slotAt slots i).pos) i fun s => by rw [(hf s).2.1]).mpr (h.pos i)
  · exact (hsame (·.layer = (slotAt slots i).layer) i fun s => by rw [(hf s).2.2.1]).mpr (h.layer i)
  · exact (hsame (·.edge = (slotAt slots i).edge) i fun s => by rw [(hf s).2.2.2]).mpr (h.edge i)
  · rw [slotAt_modify _ _ (by rw [h.length]; exact hi)]
    split
    next heq => simp [(hf _).1, heq]
    next hne =>
      rw [h.used i hi]
      simp [Ne.symm hne]

theorem getSlotIdx (h : Marked slots slots' placed) (position : Point) (layer : Int) :
    getSlotIdxByPosition slots' position layer = getSlotIdxByPosition slots position layer := by
  have hmap : slots'.map (fun s => (s.pos, s.layer)) = slots.map fun s => (s.pos, s.layer) := by
    apply List.ext_getElem (by simpa using h.length)
    intro i hi hi'
    rw [List.length_map] at hi hi'
    have hpos := h.pos i
    have hlayer := h.layer i
    simp only [slotAt, List.getD_eq_getElem?_getD, List.getElem?_eq_getElem hi,
      List.getElem?_eq_getElem hi', Option.getD_some] at hpos hlayer
    simp [hpos, hlayer]
  have hidx : ∀ l : List Slot, getSlotIdxByPosition l position layer =
      (l.map fun s => (s.pos, s.layer)).findIdx? fun q => q.1 = position ∧ q.2 = layer := by
    intro l
    rw [List.findIdx?_map]
    rfl
  rw [hidx, hidx, hmap]

end Marked

/-! ### One pin after another -/

/-- What is pushed for a pin: the pin itself and its mirrored pin. -/
def placedOf (N : Netlist) (boundary : Rect) (slots : List Slot) (p : Nat × Nat) : List PlacedPin :=
  let slot := slotAt slots p.2
  ⟨p.1, p.2, slot.pos, slot.layer, slot.edge⟩ ::
    ((N.ioPin p.1).mirrored.bind fun mirrored =>
      (mirrorSlot N boundary slots p).map fun i => ⟨mirrored, i,
        getMirroredPosition boundary slot.pos, slot.layer, getMirroredEdge slot.edge⟩).toList

section Pins

variable {S : Section} {N : Netlist} {boundary : Rect} {slots : List Slot}

theorem placedOf_slots (p : Nat × Nat) :
    (placedOf N boundary slots p).map (·.slot) =
      p.2 :: (mirrorSlot N boundary slots p).toList := by
  cases hmirrored : (N.ioPin p.1).mirrored with
  | none => simp [placedOf, mirrorSlot, hmirrored]
  | some mirrored =>
      cases hslot : mirrorSlot N boundary slots p with
      | none => simp [placedOf, hmirrored, hslot]
      | some i => simp [placedOf, hmirrored, hslot]

theorem mirrorSlot_lt {p : Nat × Nat} {i : Nat} (h : mirrorSlot N boundary slots p = some i) :
    i < slots.length := by
  rw [mirrorSlot] at h
  split at h
  · exact (List.findIdx?_eq_some_iff_findIdx_eq.mp h).1
  · exact absurd h (by simp)

theorem placePin_spec {P P' : Placing} {pin slotIndex : Nat} {placed : List PlacedPin}
    (hmarked : Marked slots P.slots placed)
    (h : S.placePin N boundary P pin slotIndex = .ok P') :
    P'.assignment = P.assignment ++ placedOf N boundary slots (pin, slotIndex) ∧
      Marked slots P'.slots (placed ++ placedOf N boundary slots (pin, slotIndex)) ∧
      ∀ i, mirrorSlot N boundary slots (pin, slotIndex) = some i →
        i ≠ slotIndex ∧ i ∉ placed.map (·.slot) := by
  have hown : Marked slots (markTaken P.slots slotIndex) (placed ++ [⟨pin, slotIndex,
      (slotAt slots slotIndex).pos, (slotAt slots slotIndex).layer,
      (slotAt slots slotIndex).edge⟩]) :=
    hmarked.modify ⟨pin, slotIndex, _, _, _⟩
      (f := fun s => { s with used := true, blocked := true }) fun s => ⟨rfl, rfl, rfl, rfl⟩
  simp only [Section.placePin, hmarked.pos, hmarked.layer, hmarked.edge] at h
  cases hmirrored : (N.ioPin pin).mirrored with
  | none =>
      have hnone : mirrorSlot N boundary slots (pin, slotIndex) = none := by
        simp [mirrorSlot, hmirrored]
      simp only [hmirrored, Except.ok.injEq] at h
      subst h
      simpa [placedOf, hmirrored, hnone] using hown
  | some mirrored =>
      have hslot : mirrorSlot N boundary slots (pin, slotIndex) =
          getSlotIdxByPosition slots
            (getMirroredPosition boundary (slotAt slots slotIndex).pos)
            (slotAt slots slotIndex).layer := by
        simp [mirrorSlot, hmirrored]
      simp only [hmirrored, assignMirroredPins, hown.getSlotIdx, ← hslot] at h
      split at h
      next => exact absurd h (by simp)
      next i hi =>
        split at h
        next => exact absurd h (by simp)
        next hunused =>
          rw [Except.ok.injEq] at h
          subst h
          refine ⟨by simp [placedOf, hmirrored, hi], ?_, fun j hj => ?_⟩
          · have := hown.modify ⟨mirrored, i,
              getMirroredPosition boundary (slotAt slots slotIndex).pos,
              (slotAt slots slotIndex).layer, getMirroredEdge (slotAt slots slotIndex).edge⟩
              (f := fun s => { s with used := true }) fun s => ⟨rfl, rfl, rfl, rfl⟩
            simpa [placedOf, hmirrored, hi, markUsed] using this
          · obtain rfl := Option.some.inj (hi.symm.trans hj)
            rw [hown.used i (mirrorSlot_lt hi), not_or] at hunused
            have hnot := hunused.2
            simp only [List.map_append, List.map_cons, List.map_nil, List.mem_append,
              List.mem_singleton, not_or] at hnot
            exact ⟨hnot.2, hnot.1⟩

/-- The mirrored pins of a run: their slots were checked when they were placed. -/
structure MirrorsChecked (N : Netlist) (boundary : Rect) (slots : List Slot)
    (plan : List (Nat × Nat)) : Prop where
  own : ∀ p ∈ plan, mirrorSlot N boundary slots p ≠ some p.2
  before : plan.Pairwise fun a b => ∀ i, mirrorSlot N boundary slots b = some i →
    i ≠ a.2 ∧ mirrorSlot N boundary slots a ≠ some i

theorem placePins_spec :
    ∀ (plan : List (Nat × Nat)) (P P' : Placing) (placed : List PlacedPin),
      Marked slots P.slots placed → S.placePins N boundary plan P = .ok P' →
      P'.assignment = P.assignment ++ plan.flatMap (placedOf N boundary slots) ∧
        Marked slots P'.slots (placed ++ plan.flatMap (placedOf N boundary slots)) ∧
        MirrorsChecked N boundary slots plan ∧
        ∀ p ∈ plan, ∀ i, mirrorSlot N boundary slots p = some i → i ∉ placed.map (·.slot) := by
  intro plan
  induction plan with
  | nil =>
      intro P P' placed hmarked h
      obtain rfl : P = P' := by simpa [Section.placePins] using h
      exact ⟨by simp, by simpa using hmarked, ⟨by simp, List.Pairwise.nil⟩, by simp⟩
  | cons p plan ih =>
      intro P P' placed hmarked h
      obtain ⟨pin, slotIndex⟩ := p
      rw [Section.placePins] at h
      cases hpin : S.placePin N boundary P pin slotIndex with
      | error e => rw [hpin] at h; exact absurd h (by simp [bind, Except.bind])
      | ok P₁ =>
          rw [hpin] at h
          obtain ⟨hassign, hmarked₁, hmirror⟩ := placePin_spec hmarked hpin
          obtain ⟨hassign', hmarked', hchecked, hnew⟩ := ih P₁ P' _ hmarked₁ h
          have hearlier : ∀ q ∈ plan, ∀ i, mirrorSlot N boundary slots q = some i →
              i ∉ placed.map (·.slot) ∧ i ≠ slotIndex ∧
                mirrorSlot N boundary slots (pin, slotIndex) ≠ some i := by
            intro q hq i hi
            have hnot := hnew q hq i hi
            rw [List.map_append, placedOf_slots, List.mem_append, List.mem_cons, not_or,
              not_or] at hnot
            exact ⟨hnot.1, hnot.2.1, fun heq => hnot.2.2 (by simp [heq])⟩
          refine ⟨by rw [hassign', hassign]; simp, by simpa using hmarked',
            ⟨List.forall_mem_cons.mpr ⟨fun heq => (hmirror _ heq).1 rfl, hchecked.own⟩,
              List.pairwise_cons.mpr ⟨fun q hq i hi => (hearlier q hq i hi).2,
                hchecked.before⟩⟩,
            List.forall_mem_cons.mpr ⟨fun i hi => (hmirror i hi).2,
              fun q hq i hi => (hearlier q hq i hi).1⟩⟩

/-- No slot is taken twice exactly when the pins' own slots differ and no pin is put where an
earlier pin has its mirrored pin. -/
theorem MirrorsChecked.nodup_iff {plan : List (Nat × Nat)}
    (h : MirrorsChecked N boundary slots plan) :
    ((plan.flatMap (placedOf N boundary slots)).map (·.slot)).Nodup ↔
      (plan.map (·.2)).Nodup ∧
        plan.Pairwise fun a b => mirrorSlot N boundary slots a ≠ some b.2 := by
  have hown : ∀ p ∈ plan, (p.2 :: (mirrorSlot N boundary slots p).toList).Nodup := by
    intro p hp
    cases hi : mirrorSlot N boundary slots p with
    | none => simp
    | some i => simpa using fun heq : p.2 = i => h.own p hp (heq ▸ hi)
  rw [List.map_flatMap, List.nodup_flatMap, List.Nodup, List.pairwise_map,
    ← List.pairwise_and_iff]
  simp only [placedOf_slots]
  constructor
  · rintro ⟨-, hdisjoint⟩
    apply hdisjoint.imp
    intro a b hab
    refine ⟨fun heq => hab (List.mem_cons_self ..) (heq ▸ List.mem_cons_self ..), fun hi => ?_⟩
    exact hab (List.mem_cons_of_mem _ (by simp [hi])) (List.mem_cons_self ..)
  · intro hdiffer
    refine ⟨hown, (hdiffer.and h.before).imp ?_⟩
    rintro a b ⟨⟨hne, hmirror⟩, hbefore⟩ i hia hib
    rcases List.mem_cons.mp hia with rfl | hia <;> rcases List.mem_cons.mp hib with heq | hib
    · exact hne heq
    · exact (hbefore _ (by simpa using hib)).1 rfl
    · exact hmirror (by simpa [heq] using hia)
    · exact (hbefore i (by simpa using hib)).2 (by simpa using hia)

end Pins

end OpenRoad.Ppl
