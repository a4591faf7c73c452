import OpenRoad.PplGroupAssign
import OpenRoad.Run

/-!
The random start of the annealing. The groups come first and take a window of slots each, then the
constrained pins a slot drawn from the range of their constraint, and then the other pins the slots
of a shuffled list. A mirrored pin takes the slot at the mirrored position for its partner as well.
-/

namespace OpenRoad.Ppl

open Db (Point Rect)

inductive AnnealError where
  /-- error 112 -/
  | mirroredPosition (pos : Point) (layer : Int)
  /-- `slot_indices` is read behind its end. -/
  | outOfSlots
  /-- No draw so far is free. -/
  | drawing
  deriving DecidableEq

/-- A pin with the first and the last slot of its constraint and with its mirrored pin. -/
structure AnnealPin where
  constraint : Option (Nat × Nat)
  mirrored : Option Nat

def annealPinAt (pins : List AnnealPin) (i : Nat) : AnnealPin := pins.getD i ⟨none, none⟩

/-- `order` are the shuffled slots; the draws are what the distribution of a group or of a pin
returns one after the other. -/
structure Annealer where
  slots : List Slot
  boundary : Rect
  pins : List AnnealPin
  groups : List (List Nat)
  order : List Nat
  groupDraw : Nat → Nat → Nat
  pinDraw : Nat → Nat → Nat
  order_perm : order.Perm (List.range slots.length)
  groups_ne : ∀ group ∈ groups, group ≠ []
  groups_lt : ∀ pin ∈ groups.flatten, pin < pins.length
  groups_nodup : groups.flatten.Nodup
  mirrored_symm : ∀ i j, (annealPinAt pins i).mirrored = some j →
    (annealPinAt pins j).mirrored = some i ∧ i ≠ j
  constraint_lt : ∀ i range, (annealPinAt pins i).constraint = some range → range.2 < slots.length
  pinDraw_le : ∀ i range, (annealPinAt pins i).constraint = some range →
    ∀ n, pinDraw i n ≤ range.2

structure AnnealState where
  /-- the flags `used` of the slots -/
  used : Nat → Bool
  assignment : Nat → Nat
  placedPins : List Nat
  slotIdx : Nat

def AnnealState.assign (S : AnnealState) (pin slot : Nat) : AnnealState :=
  { S with
    assignment := Function.update S.assignment pin slot
    used := Function.update S.used slot true }

/-- The loops over candidates for a slot: the first one that passes, with the number of candidates
before it and with what the test gives for it. -/
def searchSlots {B : Type} (test : Nat → Except AnnealError (Option B)) :
    List Nat → Except AnnealError (Option (Nat × Nat × B))
  | [] => .ok none
  | slot :: slots =>
      match test slot with
      | .error e => .error e
      | .ok (some b) => .ok (some (0, slot, b))
      | .ok none =>
          match searchSlots test slots with
          | .error e => .error e
          | .ok none => .ok none
          | .ok (some (n, found, b)) => .ok (some (n + 1, found, b))

/-- One group or one pin, in the round for the pins with a constraint or in the one without. -/
inductive AnnealOp where
  | group (k : Nat)
  | pin (onlyConstraints : Bool) (i : Nat)
  deriving DecidableEq

namespace Annealer

variable (A : Annealer)

def pin (i : Nat) : AnnealPin := annealPinAt A.pins i

def isAvailable (S : AnnealState) (i : Nat) : Bool := !(slotAt A.slots i).blocked && !S.used i

def getMirroredSlotIdx (i : Nat) : Except AnnealError Nat :=
  let pos := getMirroredPosition A.boundary (slotAt A.slots i).pos
  let layer := (slotAt A.slots i).layer
  match getSlotIdxByPosition A.slots pos layer with
  | some mirrored => .ok mirrored
  | none => .error (.mirroredPosition pos layer)

/-- The first window from the slot on. For all slots of a window the same mirrored slot is
tested. -/
def isFreeForGroup (S : AnnealState) (groupSize lastSlot : Nat) :
    Nat → Nat → Except AnnealError (Option Nat)
  | 0, _ => .ok none
  | fuel + 1, slot =>
      if lastSlot ≤ slot + groupSize then .ok none
      else
        match A.getMirroredSlotIdx slot with
        | .error e => .error e
        | .ok mirrored =>
            if (List.range groupSize).all fun i =>
                A.isAvailable S (slot + i) && A.isAvailable S mirrored then .ok (some slot)
            else isFreeForGroup S groupSize lastSlot fuel (slot + 1)

/-- The window for a group from a slot on. -/
def windowFor (S : AnnealState) (group : List Nat) (lastSlot slot : Nat) :
    Except AnnealError (Option Nat) :=
  A.isFreeForGroup S group.length lastSlot (A.slots.length + 1) slot

/-- The slot is free, and for a mirrored pin so is the mirrored slot. -/
def isFreeForPin (S : AnnealState) (i slot : Nat) : Except AnnealError (Option Unit) :=
  if A.isAvailable S slot then
    match (A.pin i).mirrored with
    | none => .ok (some ())
    | some _ =>
        match A.getMirroredSlotIdx slot with
        | .error e => .error e
        | .ok mirrored => if A.isAvailable S mirrored then .ok (some ()) else .ok none
  else .ok none

def groupAt (k : Nat) : List Nat := A.groups.getD k []

/-- The first draw that passes. -/
def drawSlot {B : Type} (fuel : Nat) (test : Nat → Except AnnealError (Option B))
    (draw : Nat → Nat) : Except AnnealError (Nat × B) :=
  match searchSlots test ((List.range fuel).map draw) with
  | .error e => .error e
  | .ok none => .error .drawing
  | .ok (some (_, slot, b)) => .ok (slot, b)

/-- The first slot of the list that passes, with `slot_idx` behind it. -/
def nextSlot {B : Type} (S : AnnealState) (test : Nat → Except AnnealError (Option B)) :
    Except AnnealError (Nat × Nat) :=
  match searchSlots test (A.order.drop S.slotIdx) with
  | .error e => .error e
  | .ok none => .error .outOfSlots
  | .ok (some (n, slot, _)) => .ok (slot, S.slotIdx + n + 1)

/-- `slot` of an operation and `slot_idx` behind it, nothing when the operation has no pin to
place. -/
def choose (fuel : Nat) (S : AnnealState) :
    AnnealOp → Except AnnealError (Option (Nat × Nat))
  | .group k =>
      match (A.pin ((A.groupAt k).headD 0)).constraint with
      | some range =>
          (drawSlot fuel (A.windowFor S (A.groupAt k) range.2) (A.groupDraw k)).map fun (_, slot) =>
            some (slot, S.slotIdx + 1)
      -- the slot of the list is taken, not the window that has been found from it on
      | none => (A.nextSlot S (A.windowFor S (A.groupAt k) (A.slots.length - 1))).map some
  | .pin onlyConstraints i =>
      if i ∈ S.placedPins then .ok none
      else
        match (A.pin i).constraint with
        | some _ =>
            if onlyConstraints then
              (drawSlot fuel (A.isFreeForPin S i) (A.pinDraw i)).map fun (slot, _) =>
                some (slot, S.slotIdx)
            else .ok none
        | none =>
            if onlyConstraints then .ok none
            else (A.nextSlot S (A.isFreeForPin S i)).map some

/-- The loop over the pins of a group. -/
def placeGroup : List Nat → Nat → AnnealState → Except AnnealError AnnealState
  | [], _, S => .ok S
  | i :: pins, slot, S =>
      let S := S.assign i slot
      match (A.pin i).mirrored with
      | none => placeGroup pins (slot + 1) { S with placedPins := i :: S.placedPins }
      | some j =>
          match A.getMirroredSlotIdx slot with
          | .error e => .error e
          | .ok mirrored =>
              let S := S.assign j mirrored
              placeGroup pins (slot + 1) { S with placedPins := j :: i :: S.placedPins }

/-- Only the mirrored pin is marked as placed. -/
def placePin (i slot : Nat) (S : AnnealState) : Except AnnealError AnnealState :=
  let S := S.assign i slot
  match (A.pin i).mirrored with
  | none => .ok S
  | some j =>
      match A.getMirroredSlotIdx slot with
      | .error e => .error e
      | .ok mirrored =>
          let S := S.assign j mirrored
          .ok { S with placedPins := j :: S.placedPins }

def place (slot : Nat) (S : AnnealState) : AnnealOp → Except AnnealError AnnealState
  | .group k => A.placeGroup (A.groupAt k) slot S
  | .pin _ i => A.placePin i slot S

def step (fuel : Nat) (S : AnnealState) (op : AnnealOp) : Except AnnealError AnnealState :=
  match A.choose fuel S op with
  | .error e => .error e
  | .ok none => .ok S
  | .ok (some (slot, slotIdx)) => A.place slot { S with slotIdx } op

def init : AnnealState := ⟨fun i => (slotAt A.slots i).used, fun _ => 0, [], 0⟩

/-- `randomAssignmentForGroups`, and then the two rounds over the pins. -/
def ops : List AnnealOp :=
  (List.range A.groups.length).map .group ++ (List.range A.pins.length).map (.pin true) ++
    (List.range A.pins.length).map (.pin false)

def randomAssignment (fuel : Nat) : Option AnnealState :=
  Run.run (fun S op => (A.step fuel S op).toOption) A.init A.ops

/-! ### A good start -/

/-- Every pin has an available slot of its own, groups have consecutive slots and mirrored pins
mirrored ones. -/
structure Placed (assignment : Nat → Nat) : Prop where
  distinct : ∀ i < A.pins.length, ∀ j < A.pins.length, assignment i = assignment j → i = j
  available : ∀ i < A.pins.length, assignment i < A.slots.length ∧
    (slotAt A.slots (assignment i)).isAvailable = true
  consecutive : ∀ k < A.groups.length, ∃ base, ∀ n pin, (A.groupAt k)[n]? = some pin →
    assignment pin = base + n
  mirrored : ∀ i < A.pins.length, ∀ j, (A.pin i).mirrored = some j →
    A.getMirroredSlotIdx (assignment i) = .ok (assignment j) ∨
      A.getMirroredSlotIdx (assignment j) = .ok (assignment i)

/-- The assignment ends with a good start. -/
def StartsWell : Prop :=
  ∃ S, (∃ k, ∀ fuel ≥ k, A.randomAssignment fuel = some S) ∧ A.Placed S.assignment

/-! ### When a step is in order -/

/-- The first of the candidates that passes, and what the test gives for it. -/
def Found {B : Type} (test : Nat → Except AnnealError (Option B)) (candidates : List Nat)
    (slot : Nat) (b : B) : Prop :=
  ∃ before after, candidates = before ++ slot :: after ∧ (∀ v ∈ before, test v = .ok none) ∧
    test slot = .ok (some b)

/-- The pins from a slot on with their slots, and their mirrored pins with the mirrored slots. -/
def pairsFrom : List Nat → Nat → Except AnnealError (List (Nat × Nat))
  | [], _ => .ok []
  | i :: pins, slot =>
      match (A.pin i).mirrored with
      | none => (pairsFrom pins (slot + 1)).map fun pairs => (i, slot) :: pairs
      | some j =>
          match A.getMirroredSlotIdx slot with
          | .error e => .error e
          | .ok mirrored =>
              (pairsFrom pins (slot + 1)).map fun pairs => (i, slot) :: (j, mirrored) :: pairs

/-- The slots that the pins get from a slot on are free and all different. -/
def TakesFree (S : AnnealState) (pins : List Nat) (slot : Nat) : Prop :=
  ∃ pairs, A.pairsFrom pins slot = .ok pairs ∧ (pairs.map (·.2)).Nodup ∧
    ∀ s ∈ pairs.map (·.2), A.isAvailable S s = true

/-- A slot is found before the candidates end, and the slots taken from it on are free. -/
def StepInOrder (S : AnnealState) : AnnealOp → Prop
  | .group k =>
      match (A.pin ((A.groupAt k).headD 0)).constraint with
      | some range => ∃ draws drawn slot, Found (A.windowFor S (A.groupAt k) range.2)
          ((List.range draws).map (A.groupDraw k)) drawn slot ∧ A.TakesFree S (A.groupAt k) slot
      | none => ∃ slot window, Found (A.windowFor S (A.groupAt k) (A.slots.length - 1))
          (A.order.drop S.slotIdx) slot window ∧ A.TakesFree S (A.groupAt k) slot
  | .pin onlyConstraints i =>
      i ∈ S.placedPins ∨
        match (A.pin i).constraint with
        | some _ => onlyConstraints = false ∨ ∃ draws slot, Found (A.isFreeForPin S i)
            ((List.range draws).map (A.pinDraw i)) slot () ∧ A.TakesFree S [i] slot
        | none => onlyConstraints = true ∨ ∃ slot, Found (A.isFreeForPin S i)
            (A.order.drop S.slotIdx) slot () ∧ A.TakesFree S [i] slot

/-- Every step of the run is in order. -/
def RunsInOrder : Prop :=
  ∃ k, ∀ fuel ≥ k, Run.Along (fun S op => (A.step fuel S op).toOption) A.StepInOrder A.init A.ops

/-- Of two mirrored pins at most one is in a group. -/
def PairsApart : Prop :=
  ∀ i ∈ A.groups.flatten, ∀ j, (A.pin i).mirrored = some j → j ∉ A.groups.flatten

end Annealer

end OpenRoad.Ppl
