import OpenRoad.DbGeometry
import Mathlib.Algebra.Group.Nat.Defs
import Mathlib.Algebra.Ring.Int.Defs
import Mathlib.Data.List.Sort

/-!
The windows and the cost matrix for the pin groups of a section. A section is a range of slots on
one edge of the die; windows of every group size are taken from its unblocked slots, and the matrix
has a row for each window and a column for each group.
-/

namespace OpenRoad.Ppl

open Db (Point Rect)

inductive Edge where
  | top | bottom | left | right | invalid
  deriving DecidableEq

/-- An on-track position in the die boundary where a pin can be placed. -/
structure Slot where
  blocked : Bool
  used : Bool
  pos : Point
  layer : Int
  edge : Edge
  deriving DecidableEq

instance : Inhabited Slot := ⟨⟨false, false, ⟨0, 0⟩, 0, .invalid⟩⟩

def Slot.isAvailable (slot : Slot) : Bool := !slot.blocked && !slot.used

def slotAt (slots : List Slot) (i : Nat) : Slot := slots.getD i default

/-- A pin with the positions of the instance pins of its net; `mirrored` is the pin of its mirrored
terminal. -/
structure IOPin where
  mirrored : Option Nat
  instPins : List Point

structure Netlist where
  ioPin : Nat → IOPin
  numIOGroups : Nat

structure PinGroup where
  pins : List Nat
  order : Bool
  deriving DecidableEq

structure Section where
  groups : List PinGroup
  beginSlot : Nat
  endSlot : Nat
  numSlots : Int
  edge : Edge

inductive GroupError where
  /-- error 211 -/
  | costExceeds24Bits
  /-- error 89 -/
  | noSlotsInSection
  /-- error 86 -/
  | groupNotAssigned (size : Nat)
  /-- error 82 -/
  | mirroredPosition (pos : Point) (layer : Int) (pin : Nat)
  deriving DecidableEq

/-! ### The windows -/

/-- The inner `while` loop: from `i` on to the next slot that leaves the slot at `pinCnt` free. -/
def nextUnblocked (blocked : Nat → Bool) (endSlot groupSize pinCnt : Nat) : Nat → Nat → Nat
  | 0, i => i
  | fuel + 1, i =>
      if i + 1 + groupSize ≤ endSlot + 1 ∧ blocked (i + 1 + pinCnt) = true then
        nextUnblocked blocked endSlot groupSize pinCnt fuel (i + 1)
      else i + 1

/-- The outer `while` loop for one group size, with `new_begin`. -/
def scanWindows (blocked : Nat → Bool) (endSlot groupSize : Nat) :
    Nat → Nat → Nat → List Nat → Nat × List Nat
  | 0, _, newBegin, starts => (newBegin, starts)
  | fuel + 1, i, newBegin, starts =>
      if i + groupSize ≤ endSlot + 1 then
        match (List.range groupSize).find? fun pinCnt => blocked (i + pinCnt) with
        | some pinCnt =>
            scanWindows blocked endSlot groupSize fuel
              (nextUnblocked blocked endSlot groupSize pinCnt (endSlot + 1) i) newBegin starts
        | none =>
            scanWindows blocked endSlot groupSize fuel (i + groupSize) (i + groupSize)
              (starts ++ [i])
      else (newBegin, starts)

/-- An entry of `valid_starting_slots_` with its entry of `group_slot_capacity`. -/
structure Window where
  start : Nat
  capacity : Nat
  deriving DecidableEq

def windowsFrom (blocked : Nat → Bool) (endSlot : Nat) : List Nat → Nat → List Window
  | [], _ => []
  | groupSize :: sizes, newBegin =>
      let scan := scanWindows blocked endSlot groupSize (endSlot + 2) newBegin newBegin []
      scan.2.map (⟨·, groupSize⟩) ++ windowsFrom blocked endSlot sizes scan.1

namespace Section

variable (S : Section)

def groupSizes : List Nat :=
  (S.groups.map (·.pins.length)).insertionSort fun a b => b ≤ a

def windows (slots : List Slot) : List Window :=
  windowsFrom (fun i => (slotAt slots i).blocked) S.endSlot S.groupSizes S.beginSlot

end Section

/-! ### The costs -/

/-- `std::numeric_limits<int>::max()`, also `hungarian_fail_` -/
def hungarianFail : Int := 2 ^ 31 - 1

namespace Netlist

variable (N : Netlist)

def computeIONetHPWL (idx : Nat) (slotPos : Point) : Int :=
  let pins := (N.ioPin idx).instPins
  let minX := pins.foldl (fun x p => min x p.x) slotPos.x
  let maxX := pins.foldl (fun x p => max x p.x) slotPos.x
  let minY := pins.foldl (fun y p => min y p.y) slotPos.y
  let maxY := pins.foldl (fun y p => max y p.y) slotPos.y
  (maxX - minX) + (maxY - minY)

end Netlist

/-- `Core::getMirroredPosition` -/
def getMirroredPosition (boundary : Rect) (position : Point) : Point :=
  if position.x = boundary.xMin then { position with x := boundary.xMax }
  else if position.x = boundary.xMax then { position with x := boundary.xMin }
  else if position.y = boundary.yMin then { position with y := boundary.yMax }
  else { position with y := boundary.yMin }

def getMirroredPinCost (N : Netlist) (boundary : Rect) (idx : Nat) (position : Point) : Int :=
  match (N.ioPin idx).mirrored with
  | some mirrored => N.computeIONetHPWL mirrored (getMirroredPosition boundary position)
  | none => 0

/-- `group_hpwl` of a group at a window, with its entry of `larger_costs` and `is_mirrored`. -/
structure GroupCost where
  hpwl : Int
  larger : Int
  isMirrored : Bool

/-- The loop over the pins of a group. -/
def groupCost (N : Netlist) (boundary : Rect) (slotPos : Point) : List Nat → GroupCost → GroupCost
  | [], cost => cost
  | idx :: pins, cost =>
      let pinHpwl := N.computeIONetHPWL idx slotPos
      if pinHpwl = hungarianFail then { cost with hpwl := hungarianFail }
      else
        let mirroredCost := getMirroredPinCost N boundary idx slotPos
        groupCost N boundary slotPos pins
          ⟨cost.hpwl + (pinHpwl + mirroredCost), cost.larger + max pinHpwl mirroredCost,
            cost.isMirrored || mirroredCost ≠ 0⟩

/-- `sortIndexes`, a stable sort. -/
def sortIndexes (costs : List Int) : List Nat :=
  (List.range costs.length).mergeSort fun a b => costs.getD a 0 ≤ costs.getD b 0

/-- The rankings are bytes and wrap round. -/
def getTieBreakRank (costs : List Int) : List Nat :=
  (List.range costs.length).map fun i => ((sortIndexes costs).idxOf i + 1) % 256

/-- A column of the matrix. -/
def groupColumn (N : Netlist) (boundary : Rect) (slots : List Slot) (windows : List Window)
    (group : PinGroup) : Except GroupError (List Int) :=
  let costs := windows.map fun w =>
    groupCost N boundary (slotAt slots w.start).pos group.pins ⟨0, 0, false⟩
  let entries := (windows.zip costs).map fun (w, cost) =>
    if w.capacity < group.pins.length then hungarianFail else cost.hpwl
  if costs.any (·.isMirrored) then
    if entries.any fun hpwl => hpwl / 2 ^ 24 ≠ 0 then .error .costExceeds24Bits
    else .ok ((entries.zip (getTieBreakRank (costs.map (·.larger)))).map fun (hpwl, rank) =>
      (hpwl * 2 ^ 8 + rank).bmod (2 ^ 32))
  else .ok entries

/-- `createMatrixForGroups`: the windows with the rows of the matrix. -/
def createMatrixForGroups (N : Netlist) (boundary : Rect) (slots : List Slot) (S : Section) :
    Except GroupError (List Window × List (List Int)) := do
  if S.groups = [] then return ([], [])
  let windows := S.windows slots
  let columns ← S.groups.mapM (groupColumn N boundary slots windows)
  if windows = [] then throw .noSlotsInSection
  return (windows, (List.range windows.length).map fun row =>
    (List.range N.numIOGroups).map fun col =>
      match columns[col]? with
      | some column => column.getD row hungarianFail
      | none => hungarianFail)

/-! ### Free runs -/

/-- `size` unblocked slots from `i` on, none of them behind `endSlot`. -/
def FreeRun (blocked : Nat → Bool) (endSlot i size : Nat) : Prop :=
  i + size ≤ endSlot + 1 ∧ ∀ k < size, blocked (i + k) = false

section FreeRuns

variable {blocked : Nat → Bool} {endSlot size : Nat}

/-- No start that the inner loop passes over begins a free run. -/
theorem nextUnblocked_spec {pinCnt : Nat} (hpin : pinCnt < size) :
    ∀ (fuel i : Nat), ¬FreeRun blocked endSlot i size →
      ∀ j, i ≤ j → j < nextUnblocked blocked endSlot size pinCnt fuel i →
        ¬FreeRun blocked endSlot j size := by
  intro fuel
  induction fuel with
  | zero =>
      intro i _ j hij hj
      exact absurd hj (by simpa [nextUnblocked] using hij)
  | succ fuel ih =>
      intro i hi j hij hj
      rw [nextUnblocked] at hj
      split at hj
      next hnext =>
        rcases hij.eq_or_lt with rfl | hlt
        · exact hi
        · have hblocked : ¬FreeRun blocked endSlot (i + 1) size := by
            rintro ⟨-, hfree⟩
            rw [hfree pinCnt hpin] at hnext
            exact absurd hnext.2 (by simp)
          exact ih (i + 1) hblocked j hlt hj
      next =>
        obtain rfl : j = i := by omega
        exact hi

theorem nextUnblocked_gt (pinCnt : Nat) :
    ∀ fuel i, 0 < fuel → i < nextUnblocked blocked endSlot size pinCnt fuel i := by
  intro fuel
  induction fuel with
  | zero => intro i h; exact absurd h (by simp)
  | succ fuel ih =>
      intro i _
      rw [nextUnblocked]
      split
      · rcases Nat.eq_zero_or_pos fuel with rfl | hpos
        · simp [nextUnblocked]
        · exact Nat.lt_of_succ_lt (ih (i + 1) hpos)
      · exact Nat.lt_succ_self i

/-- What the scan for one size gives: free runs that do not overlap, and `new_begin` behind them,
from where on no free run of this size is left. -/
structure Scanned (blocked : Nat → Bool) (endSlot size newBegin : Nat) (scan : Nat × List Nat) :
    Prop where
  newBegin_le : newBegin ≤ scan.1
  bounds : ∀ start ∈ scan.2, newBegin ≤ start ∧ start + size ≤ scan.1
  free : ∀ start ∈ scan.2, FreeRun blocked endSlot start size
  disjoint : scan.2.Pairwise fun a b => a + size ≤ b
  exhausted : ∀ j, scan.1 ≤ j → ¬FreeRun blocked endSlot j size

/-- The scan at slot `i`: no free run between `new_begin` and `i` has been left out. -/
structure Scanning (blocked : Nat → Bool) (endSlot size begin i : Nat) (scan : Nat × List Nat) :
    Prop where
  newBegin_le : begin ≤ scan.1
  bounds : ∀ start ∈ scan.2, begin ≤ start ∧ start + size ≤ scan.1
  free : ∀ start ∈ scan.2, FreeRun blocked endSlot start size
  disjoint : scan.2.Pairwise fun a b => a + size ≤ b
  passed : ∀ j, scan.1 ≤ j → j < i → ¬FreeRun blocked endSlot j size

namespace Scanning

variable {begin i : Nat} {scan : Nat × List Nat}

/-- The scan goes on over slots that begin no free run. -/
theorem skip (h : Scanning blocked endSlot size begin i scan) {j : Nat}
    (hnone : ∀ k, i ≤ k → k < j → ¬FreeRun blocked endSlot k size) :
    Scanning blocked endSlot size begin j scan := by
  refine ⟨h.newBegin_le, h.bounds, h.free, h.disjoint, fun k hk hlt => ?_⟩
  rcases Nat.lt_or_ge k i with hki | hki
  · exact h.passed k hk hki
  · exact hnone k hki hlt

/-- The free run at the slot is taken. -/
theorem take (h : Scanning blocked endSlot size begin i scan) (hle : scan.1 ≤ i)
    (hrun : FreeRun blocked endSlot i size) :
    Scanning blocked endSlot size begin (i + size) (i + size, scan.2 ++ [i]) := by
  have hbegin := h.newBegin_le
  refine ⟨by dsimp only; omega, fun start hstart => ?_, fun start hstart => ?_, ?_,
    fun j hj hlt => absurd hlt (Nat.not_lt.mpr hj)⟩
  · rcases List.mem_append.mp hstart with hstart | hstart
    · have := h.bounds start hstart
      dsimp only
      omega
    · obtain rfl := List.mem_singleton.mp hstart
      exact ⟨hbegin.trans hle, le_rfl⟩
  · rcases List.mem_append.mp hstart with hstart | hstart
    · exact h.free start hstart
    · obtain rfl := List.mem_singleton.mp hstart
      exact hrun
  · refine List.pairwise_append.mpr ⟨h.disjoint, List.pairwise_singleton _ _, fun a ha b hb => ?_⟩
    obtain rfl := List.mem_singleton.mp hb
    exact (h.bounds a ha).2.trans hle

/-- Behind the last slot where a run fits the scan is done. -/
theorem scanned (h : Scanning blocked endSlot size begin i scan) (hend : endSlot + 1 < i + size) :
    Scanned blocked endSlot size begin scan := by
  refine ⟨h.newBegin_le, h.bounds, h.free, h.disjoint, fun j hj hrun => ?_⟩
  have hrange := hrun.1
  exact h.passed j hj (by omega) hrun

end Scanning

theorem scanWindows_spec {begin : Nat} (hsize : 0 < size) :
    ∀ (fuel i newBegin : Nat) (starts : List Nat), endSlot + 2 ≤ i + fuel → newBegin ≤ i →
      Scanning blocked endSlot size begin i (newBegin, starts) →
      Scanned blocked endSlot size begin
        (scanWindows blocked endSlot size fuel i newBegin starts) := by
  intro fuel
  induction fuel with
  | zero => exact fun i newBegin starts hfuel hle h => h.scanned (by omega)
  | succ fuel ih =>
      intro i newBegin starts hfuel hle h
      rw [scanWindows]
      split
      next hin =>
        split
        next pinCnt hfind =>
          have hpin : pinCnt < size := List.mem_range.mp (List.mem_of_find?_eq_some hfind)
          have hblocked : blocked (i + pinCnt) = true := by simpa using List.find?_some hfind
          have hnot : ¬FreeRun blocked endSlot i size := fun hrun => by
            rw [hrun.2 pinCnt hpin] at hblocked
            exact absurd hblocked (by simp)
          have hgt := @nextUnblocked_gt blocked endSlot size pinCnt (endSlot + 1) i (Nat.succ_pos _)
          exact ih _ newBegin starts (by omega) (by omega)
            (h.skip (nextUnblocked_spec hpin (endSlot + 1) i hnot))
        next hfind =>
          have hrun : FreeRun blocked endSlot i size := by
            refine ⟨hin, fun k hk => ?_⟩
            simpa using List.find?_eq_none.mp hfind k (List.mem_range.mpr hk)
          exact ih _ _ _ (by omega) le_rfl (h.take hle hrun)
      next hout => exact h.scanned (by omega)

/-- The windows of all sizes: free runs that do not overlap, and where a window of some capacity
begins there is no free run of a larger size that was asked for. -/
structure WindowsFree (blocked : Nat → Bool) (endSlot newBegin : Nat) (sizes : List Nat)
    (windows : List Window) : Prop where
  bounds : ∀ w ∈ windows, newBegin ≤ w.start
  free : ∀ w ∈ windows, FreeRun blocked endSlot w.start w.capacity
  disjoint : windows.Pairwise fun a b => a.start + a.capacity ≤ b.start
  noLarger : ∀ w ∈ windows, ∀ larger ∈ sizes, w.capacity < larger →
    ¬FreeRun blocked endSlot w.start larger

theorem windowsFrom_spec :
    ∀ (sizes : List Nat) (newBegin : Nat), (∀ n ∈ sizes, 0 < n) →
      sizes.Pairwise (fun a b => b ≤ a) →
      WindowsFree blocked endSlot newBegin sizes
        (windowsFrom blocked endSlot sizes newBegin) := by
  intro sizes
  induction sizes with
  | nil =>
      intro newBegin _ _
      exact ⟨by simp [windowsFrom], by simp [windowsFrom], by simp [windowsFrom],
        by simp [windowsFrom]⟩
  | cons n sizes ih =>
      intro newBegin hpos hsorted
      obtain ⟨hn, hpos⟩ := List.forall_mem_cons.mp hpos
      obtain ⟨hge, hsorted⟩ := List.pairwise_cons.mp hsorted
      rw [windowsFrom]
      generalize hscan : scanWindows blocked endSlot n (endSlot + 2) newBegin newBegin [] = scan
      have hfound : Scanned blocked endSlot n newBegin scan := by
        rw [← hscan]
        apply scanWindows_spec hn _ _ _ _ (Nat.le_add_left _ _) le_rfl
        exact ⟨le_rfl, by simp, by simp, List.Pairwise.nil,
          fun j hj hlt => absurd hj (Nat.not_le.mpr hlt)⟩
      have hrest := ih scan.1 hpos hsorted
      have hmem : ∀ w ∈ scan.2.map (⟨·, n⟩ : Nat → Window), w.start ∈ scan.2 ∧ w.capacity = n := by
        intro w hw
        obtain ⟨start, hstart, rfl⟩ := List.mem_map.mp hw
        exact ⟨hstart, rfl⟩
      refine ⟨fun w hw => ?_, fun w hw => ?_, List.pairwise_append.mpr ⟨?_, hrest.disjoint, ?_⟩,
        fun w hw larger hlarger hlt => ?_⟩
      · rcases List.mem_append.mp hw with hw | hw
        · exact (hfound.bounds _ (hmem w hw).1).1
        · exact hfound.newBegin_le.trans (hrest.bounds w hw)
      · rcases List.mem_append.mp hw with hw | hw
        · rw [(hmem w hw).2]
          exact hfound.free _ (hmem w hw).1
        · exact hrest.free w hw
      · exact List.pairwise_map.mpr hfound.disjoint
      · intro a ha b hb
        rw [(hmem a ha).2]
        exact (hfound.bounds _ (hmem a ha).1).2.trans (hrest.bounds b hb)
      · rcases List.mem_append.mp hw with hin | hin
        · -- no size asked for is larger than the one of this scan
          rw [(hmem w hin).2] at hlt
          rcases List.mem_cons.mp hlarger with rfl | hlarger
          · exact absurd hlt (lt_irrefl _)
          · exact absurd (hge larger hlarger) (by omega)
        · rcases List.mem_cons.mp hlarger with rfl | hlarger
          · exact hfound.exhausted _ (hrest.bounds w hin)
          · exact hrest.noLarger w hin larger hlarger hlt

end FreeRuns

namespace Section

variable {S : Section}

theorem mem_groupSizes {n : Nat} : n ∈ S.groupSizes ↔ ∃ g ∈ S.groups, g.pins.length = n := by
  simp [groupSizes]

theorem windows_free (hpins : ∀ g ∈ S.groups, g.pins ≠ []) (slots : List Slot) :
    WindowsFree (fun i => (slotAt slots i).blocked) S.endSlot S.beginSlot S.groupSizes
      (S.windows slots) := by
  apply windowsFrom_spec
  · intro n hn
    obtain ⟨g, hg, rfl⟩ := mem_groupSizes.mp hn
    exact List.length_pos_iff.mpr (hpins g hg)
  · have : Std.Total fun a b : Nat => b ≤ a := ⟨fun a b => le_total b a⟩
    have : IsTrans Nat fun a b => b ≤ a := ⟨fun _ _ _ hab hbc => le_trans hbc hab⟩
    exact List.pairwise_insertionSort _ _

end Section

end OpenRoad.Ppl
