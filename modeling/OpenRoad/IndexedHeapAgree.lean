import OpenRoad.IndexedHeap

/-!
Two rankings of the same keys that compare the elements of a heap alike. The heap cannot tell them
apart, so what one ranking says about its operations also holds for the other.
-/

namespace OpenRoad.IndexedHeap

variable {α β γ : Type*} [LinearOrder β] [LinearOrder γ]

/-- The rankings have the same keys, and the same comparison within a set. -/
structure AgreeOn (O : Ranking α β) (O' : Ranking α γ) (P : α → Prop) : Prop where
  key_eq : O.key = O'.key
  larger_eq : ∀ x y, P x → P y → O.larger x y = O'.larger x y

namespace Heap

/-- All elements are in a set. -/
def AllIn (P : α → Prop) (h : Heap α) : Prop := ∀ i < h.count, P (h.entries i)

variable {O : Ranking α β} {O' : Ranking α γ} {P : α → Prop} {h : Heap α}

theorem AllIn.swap (hall : h.AllIn P) {i j : Nat} (hi : i < h.count) (hj : j < h.count) :
    (h.swap O i j).AllIn P := by
  intro l hl
  rw [swap_entries]
  split
  · exact hall i hi
  · split
    · exact hall j hj
    · exact hall l hl

theorem AllIn.place (hall : h.AllIn P) (i : Nat) {x : α} (hx : P x) : (h.place O i x).AllIn P := by
  intro l hl
  by_cases hli : l = i
  · rw [hli, place_entries_self]
    exact hx
  · rw [place_entries_of_ne _ hli]
    exact hall l hl

section

variable (hagree : AgreeOn O O' P)
include hagree

theorem valid_agree : h.Valid O ↔ h.Valid O' := by
  constructor
  · rintro ⟨hat, hpositioned⟩
    rw [hagree.key_eq] at hat hpositioned
    exact ⟨hat, hpositioned⟩
  · rintro ⟨hat, hpositioned⟩
    rw [← hagree.key_eq] at hat hpositioned
    exact ⟨hat, hpositioned⟩

theorem swap_agree (i j : Nat) : h.swap O i j = h.swap O' i j := by
  unfold Heap.swap
  rw [hagree.key_eq]

theorem place_agree (i : Nat) (x : α) : h.place O i x = h.place O' i x := by
  unfold Heap.place
  rw [hagree.key_eq]

/-- Moving up makes the same exchanges, and brings in no element. -/
theorem heapifyUpLoop_agree (fuel : Nat) (hall : h.AllIn P) {i : Nat} (hi : i < h.count) :
    heapifyUpLoop O fuel h i = heapifyUpLoop O' fuel h i ∧
      (heapifyUpLoop O fuel h i).AllIn P := by
  induction fuel generalizing h i with
  | zero => exact ⟨rfl, hall⟩
  | succ fuel ih =>
      have hcompare : 0 < i → O.larger (h.entries i) (h.entries (parent i)) =
          O'.larger (h.entries i) (h.entries (parent i)) := fun hpos =>
        hagree.larger_eq _ _ (hall i hi) (hall _ (Nat.lt_trans (parent_lt hpos) hi))
      rw [heapifyUpLoop, heapifyUpLoop, ← swap_agree hagree]
      by_cases hmove : 0 < i ∧ O.larger (h.entries i) (h.entries (parent i)) = true
      · have hmove' : 0 < i ∧ O'.larger (h.entries i) (h.entries (parent i)) = true :=
          ⟨hmove.1, (hcompare hmove.1).symm.trans hmove.2⟩
        have hp : parent i < h.count := Nat.lt_trans (parent_lt hmove.1) hi
        rw [if_pos hmove, if_pos hmove']
        exact ih (hall.swap hi hp) hp
      · have hmove' : ¬(0 < i ∧ O'.larger (h.entries i) (h.entries (parent i)) = true) :=
          fun hmove' => hmove ⟨hmove'.1, (hcompare hmove'.1).trans hmove'.2⟩
        rw [if_neg hmove, if_neg hmove']
        exact ⟨rfl, hall⟩

theorem largest_agree (hall : h.AllIn P) {i : Nat} (hi : i < h.count) :
    h.largest O i = h.largest O' i := by
  -- a comparison of two elements that are there
  have hcompare : ∀ j l, l < h.count → (if j < h.count ∧ O.larger (h.entries j) (h.entries l) = true
      then j else l) = if j < h.count ∧ O'.larger (h.entries j) (h.entries l) = true
      then j else l := by
    intro j l hl
    apply if_congr _ rfl rfl
    apply and_congr_right
    intro hj
    rw [hagree.larger_eq _ _ (hall j hj) (hall l hl)]
  have htop : (if 2 * i + 1 < h.count ∧ O.larger (h.entries (2 * i + 1)) (h.entries i) = true
      then 2 * i + 1 else i) < h.count := by
    split
    · rename_i hleft
      exact hleft.1
    · exact hi
  unfold largest
  dsimp only
  rw [hcompare (2 * i + 2) _ htop, hcompare (2 * i + 1) i hi]

/-- Moving down makes the same exchanges, and brings in no element. -/
theorem heapifyDownLoop_agree (fuel : Nat) (hall : h.AllIn P) {i : Nat} (hi : i < h.count) :
    heapifyDownLoop O fuel h i = heapifyDownLoop O' fuel h i ∧
      (heapifyDownLoop O fuel h i).AllIn P := by
  induction fuel generalizing h i with
  | zero => exact ⟨rfl, hall⟩
  | succ fuel ih =>
      rw [heapifyDownLoop, heapifyDownLoop, ← largest_agree hagree hall hi, ← swap_agree hagree]
      split
      · exact ⟨rfl, hall⟩
      · rename_i hne
        obtain ⟨-, hm, -⟩ := (largest_cases O h i).1.resolve_left hne
        exact ih (hall.swap hi hm) hm

theorem push_agree (hall : h.AllIn P) {x : α} (hx : P x) :
    h.push O x = h.push O' x ∧ (h.push O x).AllIn P := by
  have hall' : ({ h with count := h.count + 1 }.place O h.count x).AllIn P := by
    intro i hi
    by_cases hlast : i = h.count
    · rw [hlast, place_entries_self]
      exact hx
    · rw [place_entries_of_ne _ hlast]
      exact hall i (Nat.lt_of_le_of_ne (Nat.le_of_lt_succ hi) hlast)
  unfold push
  rw [← place_agree hagree]
  exact heapifyUpLoop_agree hagree h.count hall' (Nat.lt_succ_self _)

theorem extractMax_agree (hall : h.AllIn P) (hpos : 0 < h.count) :
    h.extractMax O = h.extractMax O' ∧ (h.extractMax O).AllIn P := by
  have hall' : ({ h.place O 0 (h.entries (h.count - 1)) with count := h.count - 1 }).AllIn P := by
    intro i hi
    have hi' : i < h.count - 1 := hi
    exact hall.place (O := O) 0 (hall (h.count - 1) (by omega)) i (Nat.lt_of_lt_of_le hi' (Nat.sub_le _ _))
  have hdown : ({ h.place O 0 (h.entries (h.count - 1)) with count := h.count - 1 }).heapifyDown O 0
        = ({ h.place O 0 (h.entries (h.count - 1)) with count := h.count - 1 }).heapifyDown O' 0 ∧
      (({ h.place O 0 (h.entries (h.count - 1)) with count := h.count - 1 }).heapifyDown O 0).AllIn
        P := by
    rcases Nat.eq_zero_or_pos (h.count - 1) with hzero | hpos'
    · unfold heapifyDown
      dsimp only
      rw [hzero] at hall' ⊢
      exact ⟨rfl, hall'⟩
    · exact heapifyDownLoop_agree hagree (h.count - 1) hall' hpos'
  unfold extractMax
  dsimp only
  rw [← place_agree hagree, ← hdown.1, ← hagree.key_eq]
  exact ⟨rfl, hdown.2⟩

end

/-- Where the comparison is that of the priorities, the heap is ordered when no element is larger
than its parent. -/
theorem ordered_iff_larger (hlarger : ∀ x y, O.larger x y = decide (O.prio y < O.prio x)) :
    h.Ordered O ↔
      ∀ i, 0 < i → i < h.count → O.larger (h.entries i) (h.entries (parent i)) = false := by
  unfold Ordered
  simp only [hlarger, decide_eq_false_iff_not, not_lt]

end Heap

end OpenRoad.IndexedHeap
