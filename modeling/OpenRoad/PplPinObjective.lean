import OpenRoad.PplGroupMatrix
import OpenRoad.MinAssignment
import Mathlib.Data.List.GetD
import Mathlib.Algebra.BigOperators.Fin

/-!
The cost matrix for the ungrouped pins of a section, one row for each unblocked slot and one column
for each pin. In the column of a pin whose mirrored pin costs something the costs make room for a
rank in the low byte, so that among equal costs the slot with the smaller detour of the longer net
is taken.
-/

namespace OpenRoad.Ppl

open Db (Point Rect)

inductive PinError where
  /-- error 210 -/
  | costExceeds24Bits
  deriving DecidableEq

/-- The blocked slots of a section are not counted in `nonBlockedSlots`. -/
structure PinSection (slots : List Slot) where
  pinIndices : List Nat
  beginSlot : Nat
  endSlot : Nat
  nonBlockedSlots : Nat
  endSlot_lt : endSlot < slots.length
  nonBlockedSlots_eq : nonBlockedSlots =
    (List.range' beginSlot (endSlot + 1 - beginSlot)).countP fun i => !(slotAt slots i).blocked

/-! ### The columns -/

structure PinCost where
  ioNetHpwl : Int
  mirroredCost : Int

/-- `hpwl` before it is an `int` -/
def PinCost.hpwl (cost : PinCost) : Int := cost.ioNetHpwl + cost.mirroredCost

def pinCost (N : Netlist) (boundary : Rect) (slots : List Slot) (idx i : Nat) : PinCost :=
  ⟨N.computeIONetHPWL idx (slotAt slots i).pos,
    getMirroredPinCost N boundary idx (slotAt slots i).pos⟩

/-- `is_mirrored` -/
def isMirrored (costs : List PinCost) : Bool := costs.any fun cost => cost.mirroredCost ≠ 0

def tieBreakRank (costs : List PinCost) : List Nat :=
  getTieBreakRank (costs.map fun cost => max cost.ioNetHpwl cost.mirroredCost)

/-- A column of the matrix, whose entries are 32 bits wide. -/
def pinColumn (costs : List PinCost) : Except PinError (List Int) :=
  let entries := costs.map fun cost => cost.hpwl.bmod (2 ^ 32)
  if isMirrored costs then
    if entries.any fun hpwl => hpwl / 2 ^ 24 ≠ 0 then .error .costExceeds24Bits
    else .ok ((entries.zip (tieBreakRank costs)).map fun (hpwl, rank) =>
      (hpwl * 2 ^ 8 + rank).bmod (2 ^ 32))
  else .ok entries

namespace PinSection

variable {slots : List Slot} (S : PinSection slots) (N : Netlist) (boundary : Rect)
variable (inGroup : Nat → Bool)

/-- The slots that have a row, in the order of the rows. -/
def unblocked : List Nat :=
  (List.range' S.beginSlot (S.endSlot + 1 - S.beginSlot)).filter fun i =>
    !(slotAt slots i).blocked

/-- The pins that have a column of their own. -/
def ungrouped : List Nat := S.pinIndices.filter fun idx => !inGroup idx

def pinCosts (idx : Nat) : List PinCost := S.unblocked.map (pinCost N boundary slots idx)

/-- The rows are made with the first column. -/
def numColumns : Nat := if S.ungrouped inGroup = [] then 0 else S.pinIndices.length

/-- The columns behind those of the ungrouped pins keep the value they are made with. -/
def createMatrix : Except PinError (List (List Int)) := do
  let columns ← (S.ungrouped inGroup).mapM fun idx => pinColumn (S.pinCosts N boundary idx)
  return (List.range S.nonBlockedSlots).map fun row =>
    (List.range (S.numColumns inGroup)).map fun col =>
      match columns[col]? with
      | some column => column.getD row hungarianFail
      | none => hungarianFail

/-- The loop over the rows for one pin. -/
def finalSlotFrom (assignment : List Int) (col : Nat) : Nat → Nat → Nat → Option Nat
  | 0, _, _ => none
  | rows + 1, row, slotIndex =>
      let slotIndex := slotIndex + (slots.drop slotIndex).findIdx fun slot => !slot.blocked
      if assignment.getD row (-1) ≠ col then
        finalSlotFrom assignment col rows (row + 1) (slotIndex + 1)
      else some slotIndex

/-- The slot that `getFinalAssignment` reads off the assignment of the solver for a column. -/
def finalSlot (assignment : List Int) (col : Nat) : Option Nat :=
  @finalSlotFrom slots assignment col S.nonBlockedSlots 0 S.beginSlot

end PinSection

/-! ### What the encoding is for -/

def entryAt (matrix : List (List Int)) (row col : Nat) : Int :=
  (matrix.getD row []).getD col hungarianFail

/-- The number an entry stands for. -/
def exactEntry (costs : List PinCost) (row : Nat) : Int :=
  let hpwl := (costs.getD row ⟨0, 0⟩).hpwl
  if isMirrored costs then hpwl * 2 ^ 8 + (tieBreakRank costs).getD row 0 else hpwl

/-- The column in an entry of the solver's assignment, -1 for none. -/
def columnOf (cols : Nat) (c : Int) : Option (Fin cols) :=
  if h : 0 ≤ c ∧ c.toNat < cols then some ⟨c.toNat, h.2⟩ else none

/-- What is asked of the solver. -/
structure Solves (matrix : List (List Int)) (rows cols : Nat) (assignment : List Int) : Prop where
  length_eq : assignment.length = rows
  entries : ∀ c ∈ assignment, c = -1 ∨ 0 ≤ c ∧ c < cols
  cheapest : MinAssignment.IsCheapest (fun (row : Fin rows) (col : Fin cols) =>
    entryAt matrix row col) fun row => columnOf cols (assignment.getD row (-1))

namespace PinSection

variable {slots : List Slot} (S : PinSection slots) (N : Netlist) (boundary : Rect)
variable (inGroup : Nat → Bool)

/-- An ungrouped pin of the section. -/
abbrev Pin : Type := Fin (S.ungrouped inGroup).length

variable {inGroup} in
def Pin.costs (pin : S.Pin inGroup) : List PinCost :=
  S.pinCosts N boundary (S.ungrouped inGroup)[pin]

/-- Different available slots for the pins. -/
structure Placement (slotOf : S.Pin inGroup → Nat) : Prop where
  injective : Function.Injective slotOf
  range : ∀ pin, S.beginSlot ≤ slotOf pin ∧ slotOf pin ≤ S.endSlot
  available : ∀ pin, (slotAt slots (slotOf pin)).isAvailable

def totalHpwl (slotOf : S.Pin inGroup → Nat) : Int :=
  ∑ pin, (pinCost N boundary slots (S.ungrouped inGroup)[pin] (slotOf pin)).hpwl

def encodedTotal (matrix : List (List Int)) (slotOf : S.Pin inGroup → Nat) : Int :=
  ∑ pin, entryAt matrix (S.unblocked.idxOf (slotOf pin)) pin

structure KeepsObjective (matrix : List (List Int)) : Prop where
  noOverflow : ∀ pin : S.Pin inGroup, ∀ row < S.nonBlockedSlots,
    entryAt matrix row pin = exactEntry (Pin.costs S N boundary pin) row
  tiesOnly : ∀ x y, S.Placement inGroup x → S.Placement inGroup y →
    S.totalHpwl N boundary inGroup x < S.totalHpwl N boundary inGroup y →
      S.encodedTotal inGroup matrix x < S.encodedTotal inGroup matrix y
  cheapest : ∀ assignment,
    Solves matrix S.nonBlockedSlots (S.numColumns inGroup) assignment →
      ∀ y, S.Placement inGroup y → ∃ x : S.Pin inGroup → Nat, Function.Injective x ∧
        (∀ pin : S.Pin inGroup, S.finalSlot assignment pin = some (x pin)) ∧
          S.totalHpwl N boundary inGroup x ≤ S.totalHpwl N boundary inGroup y

end PinSection

end OpenRoad.Ppl

/-!
When the encoding of the costs keeps the objective. A scaled column weighs 256 times as much as one
that is not, so that the two may be mixed only when the slots make no difference to the pins of the
others, and the ranks of all pins together have to stay below the scale.
-/

namespace OpenRoad.Ppl

open Db (Point Rect)

/-! ### Costs and ranks -/

theorem foldl_min_le {A : Type*} (f : A → Int) (ps : List A) (x : Int) :
    ps.foldl (fun x p => min x (f p)) x ≤ x := by
  induction ps generalizing x with
  | nil => exact le_rfl
  | cons p ps ih => exact (ih _).trans (min_le_left _ _)

theorem le_foldl_max_map {A : Type*} (f : A → Int) (ps : List A) (x : Int) :
    x ≤ ps.foldl (fun x p => max x (f p)) x := by
  induction ps generalizing x with
  | nil => exact le_rfl
  | cons p ps ih => exact (le_max_left _ _).trans (ih _)

theorem Netlist.computeIONetHPWL_nonneg (N : Netlist) (idx : Nat) (pos : Point) :
    0 ≤ N.computeIONetHPWL idx pos := by
  have hx := (foldl_min_le (·.x) (N.ioPin idx).instPins pos.x).trans
    (le_foldl_max_map (·.x) (N.ioPin idx).instPins pos.x)
  have hy := (foldl_min_le (·.y) (N.ioPin idx).instPins pos.y).trans
    (le_foldl_max_map (·.y) (N.ioPin idx).instPins pos.y)
  exact add_nonneg (sub_nonneg.mpr hx) (sub_nonneg.mpr hy)

theorem pinCost_hpwl_nonneg (N : Netlist) (boundary : Rect) (slots : List Slot) (idx i : Nat) :
    0 ≤ (pinCost N boundary slots idx i).hpwl := by
  refine add_nonneg (N.computeIONetHPWL_nonneg idx _) ?_
  simp only [pinCost, getMirroredPinCost]
  split
  · exact N.computeIONetHPWL_nonneg _ _
  · exact le_rfl

theorem length_tieBreakRank (costs : List PinCost) :
    (tieBreakRank costs).length = costs.length := by
  simp [tieBreakRank, getTieBreakRank]

/-- A rank is the place in the order of the costs, counted from 1 in a byte. -/
theorem tieBreakRank_eq {costs : List PinCost} {row : Nat} (hrow : row < costs.length) :
    ∃ place < costs.length, (tieBreakRank costs).getD row 0 = (place + 1) % 256 := by
  set larger := costs.map fun cost => max cost.ioNetHpwl cost.mirroredCost with hlarger
  have hlen : larger.length = costs.length := List.length_map _
  have hmem : row ∈ sortIndexes larger :=
    List.mem_mergeSort.mpr (List.mem_range.mpr (hlen.symm ▸ hrow))
  refine ⟨(sortIndexes larger).idxOf row, ?_, ?_⟩
  · calc (sortIndexes larger).idxOf row < (sortIndexes larger).length :=
          List.idxOf_lt_length_of_mem hmem
      _ = costs.length := by simp [sortIndexes, hlen]
  · have hin : row < (tieBreakRank costs).length := by rwa [length_tieBreakRank]
    rw [List.getD_eq_getElem _ _ hin]
    simp [tieBreakRank, getTieBreakRank, hlarger]

theorem tieBreakRank_le {costs : List PinCost} {row : Nat} (hrow : row < costs.length) :
    (tieBreakRank costs).getD row 0 ≤ min costs.length 255 := by
  obtain ⟨place, hplace, heq⟩ := tieBreakRank_eq hrow
  omega

theorem tieBreakRank_le_add {costs : List PinCost} {row row' : Nat} (hrow : row < costs.length)
    (hrow' : row' < costs.length) : (tieBreakRank costs).getD row 0 ≤
      (tieBreakRank costs).getD row' 0 + min (costs.length - 1) 255 := by
  obtain ⟨place, hplace, heq⟩ := tieBreakRank_eq hrow
  obtain ⟨place', hplace', heq'⟩ := tieBreakRank_eq hrow'
  omega

/-! ### The columns -/

theorem mapM_ok_getElem {A B E : Type*} {f : A → Except E B} :
    ∀ {xs : List A} {ys : List B}, xs.mapM f = .ok ys →
      ∃ _ : ys.length = xs.length, ∀ i (hi : i < xs.length) (hi' : i < ys.length),
        f xs[i] = .ok ys[i]
  | [], ys, h => by
      obtain rfl : [] = ys := by simpa [pure, Except.pure] using h
      exact ⟨rfl, fun i hi => absurd hi (Nat.not_lt_zero i)⟩
  | x :: xs, ys, h => by
      rw [List.mapM_cons] at h
      cases hx : f x with
      | error e => simp [hx, bind, Except.bind] at h
      | ok y =>
          cases hxs : xs.mapM f with
          | error e => simp [hx, hxs, bind, Except.bind] at h
          | ok zs =>
              obtain rfl : y :: zs = ys := by
                simpa [hx, hxs, bind, Except.bind, pure, Except.pure] using h
              obtain ⟨hlen, hzs⟩ := mapM_ok_getElem hxs
              refine ⟨congrArg (· + 1) hlen, fun i hi hi' => ?_⟩
              cases i with
              | zero => exact hx
              | succ i => exact hzs i (Nat.lt_of_succ_lt_succ hi) (Nat.lt_of_succ_lt_succ hi')

/-- A column that fits its type holds what its entries stand for. -/
theorem pinColumn_getD {costs : List PinCost} {column : List Int}
    (h : pinColumn costs = .ok column) (hnonneg : ∀ cost ∈ costs, 0 ≤ cost.hpwl)
    (hscaled : isMirrored costs → ∀ cost ∈ costs,
      cost.hpwl * 2 ^ 8 + min costs.length 255 < hungarianFail)
    (hunscaled : ¬isMirrored costs → ∀ cost ∈ costs, cost.hpwl < hungarianFail) {row : Nat}
    (hrow : row < costs.length) :
    column.getD row hungarianFail = exactEntry costs row ∧ exactEntry costs row < hungarianFail := by
  have hmem : costs[row] ∈ costs := List.getElem_mem hrow
  have hpos := hnonneg _ hmem
  have hcost : costs.getD row ⟨0, 0⟩ = costs[row] := List.getD_eq_getElem _ _ hrow
  rw [pinColumn] at h
  rw [exactEntry, hcost]
  dsimp only at h ⊢
  split at h
  next hmirrored =>
    split at h
    · exact absurd h (by simp)
    · have hrank := tieBreakRank_le hrow
      have hin : row < (tieBreakRank costs).length := by rwa [length_tieBreakRank]
      have hlt := hscaled hmirrored _ hmem
      rw [hungarianFail] at hlt ⊢
      rw [if_pos hmirrored]
      refine ⟨?_, by omega⟩
      obtain rfl := Except.ok.inj h
      rw [List.getD_eq_getElem _ _ (by simpa [length_tieBreakRank] using hrow)]
      rw [List.getD_eq_getElem _ _ hin] at hrank ⊢
      simp only [List.getElem_map, List.getElem_zip]
      rw [Int.bmod_eq_of_le (n := costs[row].hpwl) (by omega) (by omega)]
      exact Int.bmod_eq_of_le (by omega) (by omega)
  next hmirrored =>
    have hlt := hunscaled hmirrored _ hmem
    rw [if_neg hmirrored]
    refine ⟨?_, hlt⟩
    obtain rfl := Except.ok.inj h
    rw [hungarianFail] at hlt
    rw [List.getD_eq_getElem _ _ (by simpa using hrow), List.getElem_map]
    exact Int.bmod_eq_of_le (by omega) (by omega)

namespace PinSection

variable {slots : List Slot} (S : PinSection slots) (N : Netlist) (boundary : Rect)
variable (inGroup : Nat → Bool)

theorem length_unblocked : S.unblocked.length = S.nonBlockedSlots := by
  rw [S.nonBlockedSlots_eq, List.countP_eq_length_filter, unblocked]

theorem nodup_unblocked : S.unblocked.Nodup := (List.nodup_range' 1).filter _

theorem mem_unblocked {i : Nat} : i ∈ S.unblocked ↔
    (S.beginSlot ≤ i ∧ i ≤ S.endSlot) ∧ (slotAt slots i).blocked = false := by
  rw [unblocked, List.mem_filter, List.mem_range'_1]
  constructor
  · rintro ⟨hrange, hblocked⟩
    exact ⟨by omega, by simpa using hblocked⟩
  · rintro ⟨hrange, hblocked⟩
    exact ⟨by omega, by simpa using hblocked⟩

section Pins

variable {S N boundary inGroup}

theorem length_costs (pin : S.Pin inGroup) :
    (Pin.costs S N boundary pin).length = S.nonBlockedSlots := by
  rw [Pin.costs, pinCosts, List.length_map, length_unblocked]

theorem costs_nonneg (pin : S.Pin inGroup) :
    ∀ cost ∈ Pin.costs S N boundary pin, 0 ≤ cost.hpwl := by
  intro cost hcost
  obtain ⟨i, -, rfl⟩ := List.mem_map.mp hcost
  exact pinCost_hpwl_nonneg N boundary slots _ i

/-- The row of an unblocked slot has the costs of the slot. -/
theorem costs_idxOf (pin : S.Pin inGroup) {i : Nat} (hi : i ∈ S.unblocked) :
    (Pin.costs S N boundary pin).getD (S.unblocked.idxOf i) ⟨0, 0⟩ =
      pinCost N boundary slots (S.ungrouped inGroup)[pin] i := by
  have hlt := List.idxOf_lt_length_of_mem hi
  rw [Pin.costs, pinCosts, List.getD_eq_getElem _ _ (by simpa using hlt), List.getElem_map,
    List.getElem_idxOf hlt]

end Pins

section Matrix

variable {S N boundary inGroup}

theorem pin_lt_numColumns (pin : S.Pin inGroup) : (pin : Nat) < S.numColumns inGroup := by
  have hpin := pin.isLt
  have hle : (S.ungrouped inGroup).length ≤ S.pinIndices.length := List.length_filter_le _ _
  rw [numColumns, if_neg (List.ne_nil_of_length_pos (Nat.zero_lt_of_lt hpin))]
  omega

/-- The entries of the matrix: the columns of the pins and the padding behind them. -/
theorem entryAt_createMatrix {matrix : List (List Int)}
    (h : S.createMatrix N boundary inGroup = .ok matrix) {row : Nat}
    (hrow : row < S.nonBlockedSlots) :
    (∀ pin : S.Pin inGroup, ∃ column, pinColumn (Pin.costs S N boundary pin) = .ok column ∧
      entryAt matrix row pin = column.getD row hungarianFail) ∧
    ∀ col, (S.ungrouped inGroup).length ≤ col → entryAt matrix row col = hungarianFail := by
  rw [createMatrix] at h
  cases hcolumns : (S.ungrouped inGroup).mapM fun idx =>
      pinColumn (S.pinCosts N boundary idx) with
  | error e => simp [hcolumns, bind, Except.bind] at h
  | ok columns =>
      simp only [hcolumns, bind, Except.bind, pure, Except.pure, Except.ok.injEq] at h
      obtain ⟨hlen, hcolumn⟩ := mapM_ok_getElem hcolumns
      have hentry : ∀ col, entryAt matrix row col =
          if col < S.numColumns inGroup then
            match columns[col]? with
            | some column => column.getD row hungarianFail
            | none => hungarianFail
          else hungarianFail := by
        intro col
        have hgetRow : matrix.getD row [] = (List.range (S.numColumns inGroup)).map fun col =>
            match columns[col]? with
            | some column => column.getD row hungarianFail
            | none => hungarianFail := by
          rw [← h, List.getD_eq_getElem _ _ (by simpa using hrow), List.getElem_map,
            List.getElem_range] <;> rfl
        rw [entryAt, hgetRow]
        split
        next hcol => rw [List.getD_eq_getElem _ _ (by simpa using hcol)]; simp
        next hcol => exact List.getD_eq_default _ _ (by simpa using hcol)
      refine ⟨fun pin => ?_, fun col hcol => ?_⟩
      · have hpin : (pin : Nat) < columns.length := by rw [hlen]; exact pin.isLt
        refine ⟨columns[(pin : Nat)], hcolumn _ pin.isLt hpin, ?_⟩
        rw [hentry, if_pos (pin_lt_numColumns pin), List.getElem?_eq_getElem hpin]
      · rw [hentry, List.getElem?_eq_none (by omega)]
        exact ite_self _

end Matrix

/-! ### The slots read off -/

section Final

theorem findIdx_drop {i j : Nat} (hij : i ≤ j) (hj : j < slots.length)
    (hblocked : ∀ k, i ≤ k → k < j → (slotAt slots k).blocked = true)
    (hfree : (slotAt slots j).blocked = false) :
    i + (slots.drop i).findIdx (fun slot => !slot.blocked) = j := by
  have hget : ∀ k (hk : k < slots.length), slotAt slots k = slots[k] := fun k hk =>
    List.getD_eq_getElem _ _ hk
  have hfind : (slots.drop i).findIdx (fun slot => !slot.blocked) = j - i := by
    rw [List.findIdx_eq (by rw [List.length_drop]; omega)]
    refine ⟨?_, fun k hk => ?_⟩
    · rw [List.getElem_drop]
      have : i + (j - i) = j := by omega
      simp only [this, ← hget j hj, hfree, Bool.not_false]
    · rw [List.getElem_drop, ← hget (i + k) (by omega), hblocked (i + k) (by omega) (by omega)]
      rfl
  omega

/-- The loop over the rows goes through the unblocked slots. -/
theorem finalSlotFrom_eq {stop : Nat} (hstop : stop ≤ slots.length) {assignment : List Int}
    {col : Nat} : ∀ (free : List Nat) (row i r : Nat),
      free = (List.range' i (stop - i)).filter (fun i => !(slotAt slots i).blocked) →
      ∀ hr : r < free.length, assignment.getD (row + r) (-1) = col →
        (∀ s < r, assignment.getD (row + s) (-1) ≠ col) →
        @finalSlotFrom slots assignment col free.length row i = some free[r] := by
  intro free
  induction free with
  | nil => exact fun row i r _ hr => absurd hr (Nat.not_lt_zero r)
  | cons j free ih =>
      intro row i r hfree hr hcol hbefore
      obtain ⟨before, after, hsplit, hblocked, hj, hafter⟩ := List.filter_eq_cons_iff.mp hfree.symm
      obtain ⟨n, hn, rfl, hrest⟩ := List.range'_eq_append_iff.mp hsplit
      obtain ⟨hjeq, hpos, rfl⟩ := List.range'_eq_cons_iff.mp hrest.symm
      have hnext : i + (slots.drop i).findIdx (fun slot => !slot.blocked) = j := by
        apply findIdx_drop (by omega) (by omega)
        · intro k hik hkj
          have := hblocked k (List.mem_range'_1.mpr (by omega))
          simpa using this
        · simpa using hj
      rw [List.length_cons, finalSlotFrom, hnext]
      cases r with
      | zero =>
          have hhere : assignment.getD row (-1) = col := hcol
          rw [if_neg (not_not_intro hhere)]
          rfl
      | succ r =>
          have hnot : assignment.getD row (-1) ≠ col := hbefore 0 (Nat.succ_pos r)
          rw [if_pos hnot]
          refine ih (row + 1) (j + 1) r ?_ (Nat.lt_of_succ_lt_succ hr) ?_ fun s hs => ?_
          · rw [← hafter]
            congr 2
            omega
          · rw [Nat.add_assoc, Nat.add_comm 1 r]
            exact hcol
          · rw [Nat.add_assoc, Nat.add_comm 1 s]
            exact hbefore (s + 1) (Nat.succ_lt_succ hs)

end Final

theorem finalSlot_eq {assignment : List Int} {col r : Nat} (hr : r < S.unblocked.length)
    (hcol : assignment.getD r (-1) = col) (hbefore : ∀ s < r, assignment.getD s (-1) ≠ col) :
    S.finalSlot assignment col = some S.unblocked[r] := by
  rw [finalSlot, ← length_unblocked]
  apply finalSlotFrom_eq S.endSlot_lt _ 0 S.beginSlot r rfl hr
  · rwa [Nat.zero_add]
  · intro s hs
    rw [Nat.zero_add]
    exact hbefore s hs

/-! ### When the objective is kept -/

section Objective

variable {S N boundary inGroup}

/-- Scaled entries stay below the mark of a slot that cannot be used, scaled columns are mixed only
with columns that are the same everywhere, and the ranks add up to less than the scale. -/
structure EncodingFits (S : PinSection slots) (N : Netlist) (boundary : Rect)
    (inGroup : Nat → Bool) : Prop where
  scaled : ∀ pin : S.Pin inGroup, isMirrored (Pin.costs S N boundary pin) →
    ∀ cost ∈ Pin.costs S N boundary pin,
      cost.hpwl * 2 ^ 8 + min S.nonBlockedSlots 255 < hungarianFail
  unscaled : ∀ pin : S.Pin inGroup, ¬isMirrored (Pin.costs S N boundary pin) →
    ∀ cost ∈ Pin.costs S N boundary pin, cost.hpwl < hungarianFail
  separate : (∀ pin : S.Pin inGroup, ¬isMirrored (Pin.costs S N boundary pin)) ∨
    ((∀ pin : S.Pin inGroup, ¬isMirrored (Pin.costs S N boundary pin) →
        ∀ a ∈ Pin.costs S N boundary pin, ∀ b ∈ Pin.costs S N boundary pin, a.hpwl = b.hpwl) ∧
      Fintype.card { pin : S.Pin inGroup // isMirrored (Pin.costs S N boundary pin) } *
        min (S.nonBlockedSlots - 1) 255 < 2 ^ 8)

/-- Some scaled cost is reported as too large. -/
def Exceeds (S : PinSection slots) (N : Netlist) (boundary : Rect) (inGroup : Nat → Bool) : Prop :=
  ∃ pin : S.Pin inGroup, isMirrored (Pin.costs S N boundary pin) ∧
    ∃ cost ∈ Pin.costs S N boundary pin, 2 ^ 24 ≤ cost.hpwl ∧ cost.hpwl < 2 ^ 31

theorem Exceeds.createMatrix (h : Exceeds S N boundary inGroup) (matrix : List (List Int)) :
    S.createMatrix N boundary inGroup ≠ .ok matrix := by
  intro hok
  obtain ⟨pin, hmirrored, cost, hcost, hge, hlt⟩ := h
  have hpos : 0 < S.nonBlockedSlots := by
    rw [← @length_costs _ S N boundary inGroup pin]
    exact List.length_pos_of_mem hcost
  obtain ⟨column, hcolumn, -⟩ := (entryAt_createMatrix hok hpos).1 pin
  have hany : ((Pin.costs S N boundary pin).map fun cost => cost.hpwl.bmod (2 ^ 32)).any
      (fun hpwl => hpwl / 2 ^ 24 ≠ 0) = true := by
    rw [List.any_eq_true]
    refine ⟨_, List.mem_map_of_mem hcost, ?_⟩
    rw [Int.bmod_eq_of_le (by omega) (by omega), decide_eq_true_iff]
    omega
  rw [pinColumn] at hcolumn
  dsimp only at hcolumn
  rw [if_pos hmirrored, if_pos hany] at hcolumn
  exact absurd hcolumn (by simp)

/-- The cost of a pin in a row, and its rank there. -/
def rowCost (S : PinSection slots) (N : Netlist) (boundary : Rect) (pin : S.Pin inGroup)
    (row : Fin S.nonBlockedSlots) : Int :=
  ((Pin.costs S N boundary pin).getD row ⟨0, 0⟩).hpwl

def rowRank (S : PinSection slots) (N : Netlist) (boundary : Rect) (pin : S.Pin inGroup)
    (row : Fin S.nonBlockedSlots) : Int :=
  (tieBreakRank (Pin.costs S N boundary pin)).getD row 0

theorem EncodingFits.entry (h : EncodingFits S N boundary inGroup) {matrix : List (List Int)}
    (hok : S.createMatrix N boundary inGroup = .ok matrix) (pin : S.Pin inGroup)
    (row : Fin S.nonBlockedSlots) :
    entryAt matrix row pin = exactEntry (Pin.costs S N boundary pin) row ∧
      entryAt matrix row pin < hungarianFail := by
  obtain ⟨column, hcolumn, hentry⟩ := (entryAt_createMatrix hok row.isLt).1 pin
  have hlen := @length_costs _ S N boundary inGroup pin
  have hrow : (row : Nat) < (Pin.costs S N boundary pin).length := by rw [hlen]; exact row.isLt
  have hget := pinColumn_getD hcolumn (costs_nonneg pin)
    (fun hm cost hcost => by rw [hlen]; exact h.scaled pin hm cost hcost) (h.unscaled pin) hrow
  rw [hentry, hget.1]
  exact ⟨rfl, hget.2⟩

theorem exactEntry_eq (pin : S.Pin inGroup) (row : Fin S.nonBlockedSlots) :
    exactEntry (Pin.costs S N boundary pin) row =
      MinAssignment.encoded
        (fun pin : S.Pin inGroup => isMirrored (Pin.costs S N boundary pin) = true)
        (2 ^ 8) (rowCost S N boundary) (rowRank S N boundary) pin row := rfl

theorem rowRank_le_add (pin : S.Pin inGroup) (r s : Fin S.nonBlockedSlots) :
    rowRank S N boundary pin r ≤
      rowRank S N boundary pin s + (min (S.nonBlockedSlots - 1) 255 : Nat) := by
  have hlen := @length_costs _ S N boundary inGroup pin
  have hr : (r : Nat) < (Pin.costs S N boundary pin).length := by rw [hlen]; exact r.isLt
  have hs : (s : Nat) < (Pin.costs S N boundary pin).length := by rw [hlen]; exact s.isLt
  have hle := tieBreakRank_le_add hr hs
  rw [hlen] at hle
  exact Int.ofNat_le.mpr hle

/-- A cheaper choice of rows is cheaper in the encoding. -/
theorem EncodingFits.encoded_lt (h : EncodingFits S N boundary inGroup)
    {x y : S.Pin inGroup → Fin S.nonBlockedSlots}
    (hlt : ∑ pin, rowCost S N boundary pin (x pin) < ∑ pin, rowCost S N boundary pin (y pin)) :
    ∑ pin, exactEntry (Pin.costs S N boundary pin) (x pin) <
      ∑ pin, exactEntry (Pin.costs S N boundary pin) (y pin) := by
  simp only [exactEntry_eq]
  rcases h.separate with hnone | ⟨hflat, hranks⟩
  · simp only [MinAssignment.encoded, if_neg (hnone _)]
    exact hlt
  · have hmem : ∀ (pin : S.Pin inGroup) (row : Fin S.nonBlockedSlots),
        (Pin.costs S N boundary pin).getD row ⟨0, 0⟩ ∈ Pin.costs S N boundary pin := by
      intro pin row
      rw [List.getD_eq_getElem _ _ (by rw [length_costs]; exact row.isLt)]
      exact List.getElem_mem _
    apply MinAssignment.encoded_sum_lt
      (fun pin hpin r s => hflat pin hpin _ (hmem pin r) _ (hmem pin s)) rowRank_le_add _ hlt
      (by decide)
    exact_mod_cast hranks

/-! ### Rows and slots -/

/-- The rows of the slots of a placement. -/
theorem Placement.exists_rows {y : S.Pin inGroup → Nat} (h : S.Placement inGroup y) :
    ∃ row : S.Pin inGroup → Fin S.nonBlockedSlots, Function.Injective row ∧
      ∀ pin, (row pin : Nat) = S.unblocked.idxOf (y pin) ∧ y pin ∈ S.unblocked := by
  have hmem : ∀ pin, y pin ∈ S.unblocked := by
    intro pin
    have havailable := h.available pin
    rw [Slot.isAvailable, Bool.and_eq_true, Bool.not_eq_true'] at havailable
    exact S.mem_unblocked.mpr ⟨h.range pin, havailable.1⟩
  refine ⟨fun pin => ⟨S.unblocked.idxOf (y pin), ?_⟩, fun p q heq => ?_,
    fun pin => ⟨rfl, hmem pin⟩⟩
  · rw [← length_unblocked]
    exact List.idxOf_lt_length_of_mem (hmem pin)
  · exact h.injective ((List.idxOf_inj (hmem p)).mp (Fin.mk.inj_iff.mp heq))

theorem totalHpwl_eq {y : S.Pin inGroup → Nat} {row : S.Pin inGroup → Fin S.nonBlockedSlots}
    (hrow : ∀ pin, (row pin : Nat) = S.unblocked.idxOf (y pin) ∧ y pin ∈ S.unblocked) :
    S.totalHpwl N boundary inGroup y = ∑ pin, rowCost S N boundary pin (row pin) := by
  apply Finset.sum_congr rfl
  intro pin _
  rw [rowCost, (hrow pin).1, costs_idxOf pin (hrow pin).2]

theorem EncodingFits.encodedTotal_eq (h : EncodingFits S N boundary inGroup)
    {matrix : List (List Int)} (hok : S.createMatrix N boundary inGroup = .ok matrix)
    {y : S.Pin inGroup → Nat} {row : S.Pin inGroup → Fin S.nonBlockedSlots}
    (hrow : ∀ pin, (row pin : Nat) = S.unblocked.idxOf (y pin) ∧ y pin ∈ S.unblocked) :
    S.encodedTotal inGroup matrix y =
      ∑ pin, exactEntry (Pin.costs S N boundary pin) (row pin) := by
  apply Finset.sum_congr rfl
  intro pin _
  rw [← (hrow pin).1, (h.entry hok pin (row pin)).1]

theorem columnOf_eq_some {cols : Nat} {c : Int} {col : Fin cols} :
    columnOf cols c = some col ↔ c = col := by
  rw [columnOf]
  split
  next h =>
    rw [Option.some.injEq, Fin.ext_iff]
    dsimp only
    omega
  next h =>
    have := col.isLt
    exact ⟨fun hcon => absurd hcon (by simp), fun hcon => absurd ⟨by omega, by omega⟩ h⟩

/-- A cheapest assignment of the matrix gives every pin a row, and these are a cheapest choice. -/
theorem EncodingFits.exists_rows (h : EncodingFits S N boundary inGroup)
    {matrix : List (List Int)} (hok : S.createMatrix N boundary inGroup = .ok matrix)
    {assignment : List Int}
    (hsolves : Solves matrix S.nonBlockedSlots (S.numColumns inGroup) assignment)
    {y : S.Pin inGroup → Fin S.nonBlockedSlots} (hy : Function.Injective y) :
    ∃ row : S.Pin inGroup → Fin S.nonBlockedSlots, Function.Injective row ∧
      (∀ (pin : S.Pin inGroup) r, assignment.getD r (-1) = ((pin : Nat) : Int) ↔ r = row pin) ∧
      ∑ pin, rowCost S N boundary pin (row pin) ≤ ∑ pin, rowCost S N boundary pin (y pin) := by
  have hcheapest := hsolves.cheapest
  have hpad : MinAssignment.Padded
      (fun (row : Fin S.nonBlockedSlots) (col : Fin (S.numColumns inGroup)) =>
        entryAt matrix row col)
      (fun pin : S.Pin inGroup => ⟨pin, pin_lt_numColumns pin⟩) hungarianFail := by
    refine ⟨fun p q heq => Fin.ext (Fin.mk.inj_iff.mp heq), fun r pin => (h.entry hok pin r).2,
      fun r col hcol => (entryAt_createMatrix hok r.isLt).2 col (not_lt.mp fun hlt => ?_)⟩
    exact hcol ⟨col, hlt⟩ rfl
  have hcard : Fintype.card (S.Pin inGroup) ≤ Fintype.card (Fin S.nonBlockedSlots) :=
    Fintype.card_le_of_injective y hy
  choose row hrow using hcheapest.exists_row hpad hcard
  have hget : ∀ pin : S.Pin inGroup, assignment.getD (row pin) (-1) = ((pin : Nat) : Int) :=
    fun pin => (@columnOf_eq_some _ _ ⟨pin, pin_lt_numColumns pin⟩).mp (hrow pin)
  refine ⟨row, fun p q heq => ?_, fun pin r => ⟨fun hr => ?_, fun hr => hr ▸ hget pin⟩, ?_⟩
  · have hpq := hget p
    rw [heq, hget q] at hpq
    exact Fin.ext (Int.ofNat_inj.mp hpq).symm
  · have hlt : r < S.nonBlockedSlots := by
      by_contra hge
      rw [List.getD_eq_default _ _ (by rw [hsolves.length_eq]; omega)] at hr
      omega
    have hsame := hcheapest.isAssignment.injective ⟨r, hlt⟩ (row pin) _
      ((@columnOf_eq_some _ _ ⟨pin, pin_lt_numColumns pin⟩).mpr hr) (hrow pin)
    exact congrArg Fin.val hsame
  · by_contra hlt
    have hencoded := h.encoded_lt (not_le.mp hlt)
    have hle := hcheapest.sum_le hpad hrow hy
    simp only [(h.entry hok _ _).1] at hle
    exact absurd hencoded (not_lt.mpr hle)

end Objective

end PinSection

/-! ### A scaled column beside one that is not -/

/-- Two slots on the bottom edge. -/
def twoSlots : List Slot :=
  [⟨false, false, ⟨100, 0⟩, 1, .bottom⟩, ⟨false, false, ⟨200, 0⟩, 1, .bottom⟩]

def twoPins : PinSection twoSlots where
  pinIndices := [0, 1]
  beginSlot := 0
  endSlot := 1
  nonBlockedSlots := 2
  endSlot_lt := by decide
  nonBlockedSlots_eq := by decide

/-- The first pin is mirrored with the third; the net of the second has the pins given. -/
def mirroredNets (instPins : List Point) : Netlist where
  ioPin
    | 0 => ⟨some 2, []⟩
    | 1 => ⟨none, instPins⟩
    | _ => ⟨none, [⟨100, 1000⟩, ⟨199, 1000⟩]⟩
  numIOGroups := 0

def pinsBoundary : Rect := ⟨0, 0, 1000, 1000⟩

theorem getTieBreakRank_sorted : getTieBreakRank [99, 100] = [1, 2] := by
  rw [getTieBreakRank, sortIndexes, List.mergeSort_of_pairwise (by decide)]
  rfl

theorem pinColumn_mirrored : pinColumn [⟨0, 99⟩, ⟨0, 100⟩] = .ok [25345, 25602] := by
  have hlarger : ([⟨0, 99⟩, ⟨0, 100⟩] : List PinCost).map
      (fun cost => max cost.ioNetHpwl cost.mirroredCost) = [99, 100] := by decide
  rw [pinColumn, if_pos (by decide), if_neg (by decide), tieBreakRank, hlarger,
    getTieBreakRank_sorted]
  decide +kernel

/-- The column of the mirrored pin, beside any column of the other one. -/
theorem createMatrix_twoPins {instPins : List Point} {a b : Int}
    (hsecond : pinColumn (twoPins.pinCosts (mirroredNets instPins) pinsBoundary 1) = .ok [a, b]) :
    twoPins.createMatrix (mirroredNets instPins) pinsBoundary (fun _ => false) =
      .ok [[25345, a], [25602, b]] := by
  have hungrouped : (twoPins.ungrouped fun _ => false) = [0, 1] := rfl
  have hfirst : pinColumn (twoPins.pinCosts (mirroredNets instPins) pinsBoundary 0) =
      .ok [25345, 25602] := pinColumn_mirrored
  rw [PinSection.createMatrix, hungrouped]
  simp only [List.mapM_cons, List.mapM_nil, hfirst, hsecond]
  rfl

end OpenRoad.Ppl
