import Mathlib.Order.Lattice
import Mathlib.Logic.Function.Basic

/-!
A binary max-heap that knows the position of each element. The elements have distinct keys and are
compared by a relation that refines a priority. Seen from outside, the heap is a map from keys to
elements whose greatest priority is at the root.
-/

namespace OpenRoad.IndexedHeap

variable {α β : Type*} [LinearOrder β]

/-- Keys, priorities and the comparison that the heap makes. Elements of one priority may compare
either way. -/
structure Ranking (α β : Type*) [LinearOrder β] where
  key : α → Nat
  prio : α → β
  larger : α → α → Bool
  prio_le_of_larger : ∀ x y, larger x y = true → prio y ≤ prio x
  prio_le_of_not_larger : ∀ x y, larger x y = false → prio x ≤ prio y

/-- The elements in positions `0` to `count - 1`, and the position of each key. -/
structure Heap (α : Type*) where
  entries : Nat → α
  count : Nat
  position : Nat → Option Nat

def parent (i : Nat) : Nat := (i - 1) / 2

theorem parent_lt {i : Nat} (h : 0 < i) : parent i < i := by
  unfold parent
  omega

/-! ### Operations -/

namespace Heap

variable (O : Ranking α β) (h : Heap α)

/-- The element with a key. -/
def lookup (s : Nat) : Option α := (h.position s).map h.entries

def swap (i j : Nat) : Heap α :=
  { h with
    entries := Function.update (Function.update h.entries i (h.entries j)) j (h.entries i)
    position := Function.update (Function.update h.position (O.key (h.entries i)) (some j))
      (O.key (h.entries j)) (some i) }

/-- Move an element towards the root while it is larger than its parent. -/
def heapifyUpLoop : Nat → Heap α → Nat → Heap α
  | 0, h, _ => h
  | fuel + 1, h, i =>
      if 0 < i ∧ O.larger (h.entries i) (h.entries (parent i)) = true then
        heapifyUpLoop fuel (h.swap O i (parent i)) (parent i)
      else h

def heapifyUp (i : Nat) : Heap α := heapifyUpLoop O i h i

/-- The largest of an element and its two children. -/
def largest (i : Nat) : Nat :=
  let left := 2 * i + 1
  let right := 2 * i + 2
  let top := if left < h.count ∧ O.larger (h.entries left) (h.entries i) = true then left else i
  if right < h.count ∧ O.larger (h.entries right) (h.entries top) = true then right else top

/-- Move an element away from the root while one of its children is larger. -/
def heapifyDownLoop : Nat → Heap α → Nat → Heap α
  | 0, h, _ => h
  | fuel + 1, h, i =>
      if h.largest O i = i then h
      else heapifyDownLoop fuel (h.swap O i (h.largest O i)) (h.largest O i)

def heapifyDown (i : Nat) : Heap α := heapifyDownLoop O h.count h i

/-- Put an element in a position. -/
def place (i : Nat) (x : α) : Heap α :=
  { h with
    entries := Function.update h.entries i x
    position := Function.update h.position (O.key x) (some i) }

/-- Exchange the element in a position for one with the same key. -/
def replace (i : Nat) (x : α) : Heap α := { h with entries := Function.update h.entries i x }

def push (x : α) : Heap α := ({ h with count := h.count + 1 }.place O h.count x).heapifyUp O h.count

def extractMax : Heap α :=
  let moved := { h.place O 0 (h.entries (h.count - 1)) with count := h.count - 1 }.heapifyDown O 0
  { moved with position := Function.update moved.position (O.key (h.entries 0)) none }

/-! ### Positions -/

/-- The positions are those of the elements. -/
structure Valid : Prop where
  at_position : ∀ i < h.count, h.position (O.key (h.entries i)) = some i
  positioned : ∀ s i, h.position s = some i → i < h.count ∧ O.key (h.entries i) = s

variable {O h}

theorem Valid.lookup_eq_some (hv : h.Valid O) {s : Nat} {x : α} :
    h.lookup s = some x ↔ ∃ i < h.count, h.entries i = x ∧ O.key x = s := by
  unfold lookup
  rw [Option.map_eq_some_iff]
  constructor
  · rintro ⟨i, hi, rfl⟩
    obtain ⟨hlt, hkey⟩ := hv.positioned s i hi
    exact ⟨i, hlt, rfl, hkey⟩
  · rintro ⟨i, hlt, rfl, rfl⟩
    exact ⟨i, hv.at_position i hlt, rfl⟩

theorem Valid.key_inj (hv : h.Valid O) {i j : Nat} (hi : i < h.count) (hj : j < h.count)
    (heq : O.key (h.entries i) = O.key (h.entries j)) : i = j := by
  have hpos := hv.at_position i hi
  rw [heq, hv.at_position j hj] at hpos
  exact (Option.some.inj hpos).symm

/-- Two heaps whose elements are the same look the same. -/
theorem lookup_ext {h' : Heap α} (hv : h.Valid O) (hv' : h'.Valid O)
    (hsame : ∀ x, (∃ i < h.count, h.entries i = x) ↔ ∃ i < h'.count, h'.entries i = x) :
    h'.lookup = h.lookup := by
  funext s
  apply Option.ext
  intro x
  rw [hv'.lookup_eq_some, hv.lookup_eq_some]
  constructor
  · rintro ⟨i, hi, hx, hkey⟩
    obtain ⟨j, hj, hx'⟩ := (hsame x).mpr ⟨i, hi, hx⟩
    exact ⟨j, hj, hx', hkey⟩
  · rintro ⟨i, hi, hx, hkey⟩
    obtain ⟨j, hj, hx'⟩ := (hsame x).mp ⟨i, hi, hx⟩
    exact ⟨j, hj, hx', hkey⟩

theorem swap_entries (i j l : Nat) :
    (h.swap O i j).entries l =
      if l = j then h.entries i else if l = i then h.entries j else h.entries l := by
  simp [swap, Function.update_apply]

/-- Exchanging two elements keeps the positions right. -/
theorem Valid.swap (hv : h.Valid O) {i j : Nat} (hi : i < h.count) (hj : j < h.count)
    (hij : i ≠ j) : (h.swap O i j).Valid O := by
  have hkey : O.key (h.entries i) ≠ O.key (h.entries j) := fun heq => hij (hv.key_inj hi hj heq)
  constructor
  · intro l hl
    rw [swap_entries]
    simp only [Heap.swap]
    by_cases hlj : l = j
    · subst hlj
      rw [if_pos rfl, Function.update_of_ne hkey, Function.update_self]
    · rw [if_neg hlj]
      by_cases hli : l = i
      · subst hli
        rw [if_pos rfl, Function.update_self]
      · rw [if_neg hli, Function.update_of_ne, Function.update_of_ne]
        · exact hv.at_position l hl
        · exact fun heq => hli (hv.key_inj hl hi heq)
        · exact fun heq => hlj (hv.key_inj hl hj heq)
  · intro s l hs
    rw [swap_entries]
    simp only [Heap.swap] at hs ⊢
    by_cases hsj : s = O.key (h.entries j)
    · subst hsj
      rw [Function.update_self] at hs
      obtain rfl := Option.some.inj hs
      rw [if_neg hij, if_pos rfl]
      exact ⟨hi, rfl⟩
    · rw [Function.update_of_ne hsj] at hs
      by_cases hsi : s = O.key (h.entries i)
      · subst hsi
        rw [Function.update_self] at hs
        obtain rfl := Option.some.inj hs
        rw [if_pos rfl]
        exact ⟨hj, rfl⟩
      · rw [Function.update_of_ne hsi] at hs
        obtain ⟨hl, hkeyl⟩ := hv.positioned s l hs
        rw [if_neg, if_neg]
        · exact ⟨hl, hkeyl⟩
        · rintro rfl
          exact hsi hkeyl.symm
        · rintro rfl
          exact hsj hkeyl.symm

theorem Valid.lookup_swap (hv : h.Valid O) {i j : Nat} (hi : i < h.count) (hj : j < h.count)
    (hij : i ≠ j) : (h.swap O i j).lookup = h.lookup := by
  apply lookup_ext hv (hv.swap hi hj hij)
  intro x
  constructor
  · rintro ⟨l, hl, rfl⟩
    by_cases hli : l = i
    · exact ⟨j, hj, by rw [swap_entries, if_pos rfl, hli]⟩
    · by_cases hlj : l = j
      · exact ⟨i, hi, by rw [swap_entries, if_neg hij, if_pos rfl, hlj]⟩
      · exact ⟨l, hl, by rw [swap_entries, if_neg hlj, if_neg hli]⟩
  · rintro ⟨l, hl, rfl⟩
    rw [swap_entries]
    by_cases hlj : l = j
    · exact ⟨i, hi, by rw [if_pos hlj]⟩
    · by_cases hli : l = i
      · exact ⟨j, hj, by rw [if_neg hlj, if_pos hli]⟩
      · exact ⟨l, hl, by rw [if_neg hlj, if_neg hli]⟩

@[simp] theorem place_entries_self (i : Nat) (x : α) : (h.place O i x).entries i = x := by
  simp [place]

theorem place_entries_of_ne {i j : Nat} (x : α) (hne : j ≠ i) :
    (h.place O i x).entries j = h.entries j := by
  simp [place, hne]

/-- Placing an element: where its key was in no other position, it replaces what was there. -/
theorem Valid.place (hv : h.Valid O) {i : Nat} {x : α} (hi : i < h.count)
    (hkey : O.key x = O.key (h.entries i)) :
    (h.place O i x).Valid O ∧ (h.place O i x).lookup = Function.update h.lookup (O.key x) (some x) := by
  have hvalid : (h.place O i x).Valid O := by
    constructor
    · intro l hl
      simp only [Heap.place]
      by_cases hli : l = i
      · subst hli
        rw [Function.update_self, Function.update_self]
      · rw [Function.update_of_ne hli, Function.update_of_ne]
        · exact hv.at_position l hl
        · rw [hkey]
          exact fun heq => hli (hv.key_inj hl hi heq)
    · intro s l hs
      simp only [Heap.place] at hs ⊢
      by_cases hsx : s = O.key x
      · subst hsx
        rw [Function.update_self] at hs
        obtain rfl := Option.some.inj hs
        rw [Function.update_self]
        exact ⟨hi, rfl⟩
      · rw [Function.update_of_ne hsx] at hs
        obtain ⟨hl, hkeyl⟩ := hv.positioned s l hs
        rw [Function.update_of_ne]
        · exact ⟨hl, hkeyl⟩
        · rintro rfl
          exact hsx (hkeyl.symm.trans hkey.symm)
  refine ⟨hvalid, ?_⟩
  funext s
  by_cases hs : s = O.key x
  · subst hs
    rw [Function.update_self, hvalid.lookup_eq_some]
    exact ⟨i, hi, Function.update_self .., rfl⟩
  · rw [Function.update_of_ne hs]
    unfold lookup
    simp only [Heap.place]
    rw [Function.update_of_ne hs]
    apply Option.map_congr
    intro l hl
    apply Function.update_of_ne
    rintro rfl
    exact hs (((hv.positioned s l hl).2).symm.trans hkey.symm)

theorem Valid.replace_eq_place (hv : h.Valid O) {i : Nat} {x : α} (hi : i < h.count)
    (hkey : O.key x = O.key (h.entries i)) : h.replace i x = h.place O i x := by
  simp only [replace, Heap.place, Heap.mk.injEq, true_and]
  rw [hkey, ← hv.at_position i hi, Function.update_eq_self]

/-! ### Order -/

variable (O h) in
/-- No element has a greater priority than its parent. -/
def Ordered : Prop :=
  ∀ i, 0 < i → i < h.count → O.prio (h.entries i) ≤ O.prio (h.entries (parent i))

/-- The root has the greatest priority. -/
theorem Ordered.le_root (ho : h.Ordered O) {i : Nat} (hi : i < h.count) :
    O.prio (h.entries i) ≤ O.prio (h.entries 0) := by
  induction i using Nat.strongRecOn with
  | ind i ih =>
      rcases Nat.eq_zero_or_pos i with rfl | hpos
      · exact le_refl _
      · have hparent := parent_lt hpos
        exact le_trans (ho i hpos hi) (ih (parent i) hparent (Nat.lt_trans hparent hi))

variable (O h) in
/-- Only one element may have a greater priority than its parent. -/
structure UpOrder (i : Nat) : Prop where
  except : ∀ j, 0 < j → j < h.count → j ≠ i →
    O.prio (h.entries j) ≤ O.prio (h.entries (parent j))
  grand : 0 < i → ∀ j, 0 < j → j < h.count → parent j = i →
    O.prio (h.entries j) ≤ O.prio (h.entries (parent i))

variable (O h) in
/-- Only one element may have a smaller priority than its children. -/
structure DownOrder (i : Nat) : Prop where
  except : ∀ j, 0 < j → j < h.count → parent j ≠ i →
    O.prio (h.entries j) ≤ O.prio (h.entries (parent j))
  grand : 0 < i → ∀ j, 0 < j → j < h.count → parent j = i →
    O.prio (h.entries j) ≤ O.prio (h.entries (parent i))

theorem Ordered.place_up (ho : h.Ordered O) {i : Nat} {x : α} (hi : i < h.count)
    (hx : O.prio (h.entries i) ≤ O.prio x) : (h.place O i x).UpOrder O i := by
  constructor
  · intro j hpos hj hji
    simp only [place] at hj ⊢
    rw [Function.update_of_ne hji]
    by_cases hp : parent j = i
    · rw [hp, Function.update_self]
      exact le_trans (hp ▸ ho j hpos hj) hx
    · rw [Function.update_of_ne hp]
      exact ho j hpos hj
  · intro hpos j hj hlt hp
    have hne : j ≠ i := by
      have := parent_lt hj
      omega
    have hne' : parent i ≠ i := Nat.ne_of_lt (parent_lt hpos)
    simp only [place]
    rw [Function.update_of_ne hne, Function.update_of_ne hne']
    exact le_trans (hp ▸ ho j hj hlt) (ho i hpos hi)

theorem Ordered.place_down (ho : h.Ordered O) {i : Nat} {x : α} (hi : i < h.count)
    (hx : O.prio x ≤ O.prio (h.entries i)) : (h.place O i x).DownOrder O i := by
  constructor
  · intro j hpos hj hp
    simp only [place] at hj ⊢
    rw [Function.update_of_ne hp]
    by_cases hji : j = i
    · subst hji
      rw [Function.update_self]
      exact le_trans hx (ho j hpos hj)
    · rw [Function.update_of_ne hji]
      exact ho j hpos hj
  · intro hpos j hj hlt hp
    have hne : j ≠ i := by
      have := parent_lt hj
      omega
    have hne' : parent i ≠ i := Nat.ne_of_lt (parent_lt hpos)
    simp only [place]
    rw [Function.update_of_ne hne, Function.update_of_ne hne']
    exact le_trans (hp ▸ ho j hj hlt) (ho i hpos hi)

/-! ### Moving up -/

theorem UpOrder.swap {i : Nat} (ho : h.UpOrder O i) (hpos : 0 < i) (hi : i < h.count)
    (hle : O.prio (h.entries (parent i)) ≤ O.prio (h.entries i)) :
    (h.swap O i (parent i)).UpOrder O (parent i) := by
  have hp := parent_lt hpos
  constructor
  · intro j hj hlt hne
    have hlt' : j < h.count := hlt
    rw [swap_entries, swap_entries, if_neg hne]
    by_cases hji : j = i
    · rw [if_pos hji, hji, if_pos rfl]
      exact hle
    · rw [if_neg hji]
      have hj' := ho.except j hj hlt' hji
      by_cases hpj : parent j = parent i
      · rw [if_pos hpj]
        rw [hpj] at hj'
        exact le_trans hj' hle
      · rw [if_neg hpj]
        by_cases hpi : parent j = i
        · rw [if_pos hpi]
          exact ho.grand hpos j hj hlt' hpi
        · rw [if_neg hpi]
          exact hj'
  · intro hpp j hj hlt hpj
    have hlt' : j < h.count := hlt
    have hgrand := ho.except (parent i) hpp (Nat.lt_trans hp hi) (Nat.ne_of_lt hp)
    have hppi := parent_lt hpp
    have hjp : j ≠ parent i := by
      have := parent_lt hj
      omega
    rw [swap_entries, swap_entries, if_neg hjp, if_neg (by omega : parent (parent i) ≠ parent i),
      if_neg (by omega : parent (parent i) ≠ i)]
    by_cases hji : j = i
    · rw [if_pos hji]
      exact hgrand
    · rw [if_neg hji]
      have hj' := ho.except j hj hlt' hji
      rw [hpj] at hj'
      exact le_trans hj' hgrand

/-- Moving up keeps the elements. -/
theorem heapifyUpLoop_spec (fuel : Nat) {h : Heap α} (hv : h.Valid O) {i : Nat}
    (hi : i < h.count) :
    (heapifyUpLoop O fuel h i).Valid O ∧ (heapifyUpLoop O fuel h i).lookup = h.lookup ∧
      (heapifyUpLoop O fuel h i).count = h.count := by
  induction fuel generalizing h i with
  | zero => exact ⟨hv, rfl, rfl⟩
  | succ fuel ih =>
      rw [heapifyUpLoop]
      split
      · rename_i hmove
        have hp := parent_lt hmove.1
        have hp' := Nat.lt_trans hp hi
        obtain ⟨hv', hlookup, hcount⟩ := ih (hv.swap hi hp' (Nat.ne_of_gt hp)) hp'
        exact ⟨hv', hlookup.trans (hv.lookup_swap hi hp' (Nat.ne_of_gt hp)), hcount⟩
      · exact ⟨hv, rfl, rfl⟩

/-- Moving up ends in an ordered heap, and an element of greatest priority ends at the root. -/
theorem heapifyUpLoop_ordered {fuel : Nat} {h : Heap α} {i : Nat} (hfuel : i ≤ fuel)
    (hi : i < h.count) (ho : h.UpOrder O i) :
    (heapifyUpLoop O fuel h i).Ordered O ∧
      ((∀ j < h.count, j ≠ i → O.prio (h.entries j) < O.prio (h.entries i)) →
        (heapifyUpLoop O fuel h i).entries 0 = h.entries i) := by
  induction fuel generalizing h i with
  | zero =>
      obtain rfl : i = 0 := Nat.le_zero.mp hfuel
      exact ⟨fun j hj hlt => ho.except j hj hlt (Nat.ne_of_gt hj), fun _ => rfl⟩
  | succ fuel ih =>
      rw [heapifyUpLoop]
      split
      · rename_i hmove
        have hp := parent_lt hmove.1
        have hp' := Nat.lt_trans hp hi
        have hle := O.prio_le_of_larger _ _ hmove.2
        obtain ⟨hordered, hroot⟩ := ih (h := h.swap O i (parent i)) (by omega) hp'
          (ho.swap hmove.1 hi hle)
        refine ⟨hordered, fun hgreatest => ?_⟩
        have htop : (h.swap O i (parent i)).entries (parent i) = h.entries i := by
          rw [swap_entries, if_pos rfl]
        rw [← htop]
        apply hroot
        intro j hj hjp
        rw [htop, swap_entries, if_neg hjp]
        by_cases hji : j = i
        · rw [if_pos hji]
          exact hgreatest (parent i) hp' (Nat.ne_of_lt hp)
        · rw [if_neg hji]
          exact hgreatest j hj hji
      · rename_i hstop
        have hsmall : 0 < i → O.prio (h.entries i) ≤ O.prio (h.entries (parent i)) := by
          intro hpos
          apply O.prio_le_of_not_larger
          cases hlarger : O.larger (h.entries i) (h.entries (parent i)) with
          | true => exact absurd ⟨hpos, hlarger⟩ hstop
          | false => rfl
        constructor
        · intro j hj hlt
          by_cases hji : j = i
          · exact hji ▸ hsmall (hji ▸ hj)
          · exact ho.except j hj hlt hji
        · intro hgreatest
          rcases Nat.eq_zero_or_pos i with rfl | hpos
          · rfl
          · have hp := parent_lt hpos
            exact absurd (hgreatest (parent i) (Nat.lt_trans hp hi) (Nat.ne_of_lt hp))
              (not_lt.mpr (hsmall hpos))

/-! ### Moving down -/

variable (O h) in
/-- The position that `heapifyDown` goes on with: the element or a child, and larger than both
children. -/
theorem largest_cases (i : Nat) :
    (h.largest O i = i ∨ (i < h.largest O i ∧ h.largest O i < h.count ∧
        parent (h.largest O i) = i)) ∧
      O.prio (h.entries i) ≤ O.prio (h.entries (h.largest O i)) ∧
      ∀ j, 0 < j → j < h.count → parent j = i →
        O.prio (h.entries j) ≤ O.prio (h.entries (h.largest O i)) := by
  have hchild : ∀ j, 0 < j → parent j = i → j = 2 * i + 1 ∨ j = 2 * i + 2 := by
    intro j hj hp
    unfold parent at hp
    omega
  -- the first of the two comparisons
  obtain ⟨top, htop, hcase, hle, hleft⟩ : ∃ top, (if 2 * i + 1 < h.count ∧
      O.larger (h.entries (2 * i + 1)) (h.entries i) = true then 2 * i + 1 else i) = top ∧
      (top = i ∨ (top = 2 * i + 1 ∧ 2 * i + 1 < h.count)) ∧
      O.prio (h.entries i) ≤ O.prio (h.entries top) ∧
      (2 * i + 1 < h.count → O.prio (h.entries (2 * i + 1)) ≤ O.prio (h.entries top)) := by
    by_cases hlarger : 2 * i + 1 < h.count ∧
        O.larger (h.entries (2 * i + 1)) (h.entries i) = true
    · exact ⟨2 * i + 1, if_pos hlarger, Or.inr ⟨rfl, hlarger.1⟩,
        O.prio_le_of_larger _ _ hlarger.2, fun _ => le_refl _⟩
    · refine ⟨i, if_neg hlarger, Or.inl rfl, le_refl _, fun hlt => ?_⟩
      apply O.prio_le_of_not_larger
      cases hcmp : O.larger (h.entries (2 * i + 1)) (h.entries i) with
      | true => exact absurd ⟨hlt, hcmp⟩ hlarger
      | false => rfl
  have hlargest : h.largest O i = if 2 * i + 2 < h.count ∧
      O.larger (h.entries (2 * i + 2)) (h.entries top) = true then 2 * i + 2 else top := by
    rw [← htop]
    rfl
  by_cases hlarger : 2 * i + 2 < h.count ∧
      O.larger (h.entries (2 * i + 2)) (h.entries top) = true
  · rw [if_pos hlarger] at hlargest
    have htop' := O.prio_le_of_larger _ _ hlarger.2
    rw [hlargest]
    refine ⟨Or.inr ⟨by omega, hlarger.1, by unfold parent; omega⟩, le_trans hle htop', ?_⟩
    intro j hj hlt hp
    rcases hchild j hj hp with rfl | rfl
    · exact le_trans (hleft hlt) htop'
    · exact le_refl _
  · rw [if_neg hlarger] at hlargest
    rw [hlargest]
    refine ⟨?_, hle, ?_⟩
    · rcases hcase with heq | ⟨heq, hlt⟩
      · exact Or.inl heq
      · exact Or.inr ⟨by omega, by omega, by unfold parent; omega⟩
    · intro j hj hlt hp
      rcases hchild j hj hp with rfl | rfl
      · exact hleft hlt
      · apply O.prio_le_of_not_larger
        cases hcmp : O.larger (h.entries (2 * i + 2)) (h.entries top) with
        | true => exact absurd ⟨hlt, hcmp⟩ hlarger
        | false => rfl

theorem DownOrder.swap {i m : Nat} (ho : h.DownOrder O i) (him : i < m) (hm : m < h.count)
    (hparent : parent m = i) (hle : O.prio (h.entries i) ≤ O.prio (h.entries m))
    (hmax : ∀ j, 0 < j → j < h.count → parent j = i →
      O.prio (h.entries j) ≤ O.prio (h.entries m)) : (h.swap O i m).DownOrder O m := by
  have hmpos : 0 < m := Nat.zero_lt_of_lt him
  constructor
  · intro j hj hlt hne
    have hlt' : j < h.count := hlt
    rw [swap_entries, swap_entries, if_neg hne]
    by_cases hjm : j = m
    · rw [if_pos hjm, hjm, if_pos hparent]
      exact hle
    · rw [if_neg hjm]
      by_cases hji : j = i
      · have hpi : parent j ≠ i := by
          have := parent_lt hj
          omega
        rw [if_pos hji, if_neg hpi]
        subst hji
        exact ho.grand hj m hmpos hm hparent
      · rw [if_neg hji]
        by_cases hpi : parent j = i
        · rw [if_pos hpi]
          exact hmax j hj hlt' hpi
        · rw [if_neg hpi]
          exact ho.except j hj hlt' hpi
  · intro _ j hj hlt hpj
    have hlt' : j < h.count := hlt
    have hjm : m < j := hpj ▸ parent_lt hj
    rw [swap_entries, swap_entries, if_neg (by omega : j ≠ m), if_neg (by omega : j ≠ i),
      if_neg (by omega : parent m ≠ m), if_pos hparent]
    have hj' := ho.except j hj hlt' (by omega)
    rw [hpj] at hj'
    exact hj'

/-- Moving down keeps the elements. -/
theorem heapifyDownLoop_spec (fuel : Nat) {h : Heap α} (hv : h.Valid O) {i : Nat}
    (hi : i < h.count) :
    (heapifyDownLoop O fuel h i).Valid O ∧ (heapifyDownLoop O fuel h i).lookup = h.lookup ∧
      (heapifyDownLoop O fuel h i).count = h.count := by
  induction fuel generalizing h i with
  | zero => exact ⟨hv, rfl, rfl⟩
  | succ fuel ih =>
      rw [heapifyDownLoop]
      split
      · exact ⟨hv, rfl, rfl⟩
      · rename_i hne
        obtain ⟨hlt, hm, -⟩ := (largest_cases O h i).1.resolve_left hne
        obtain ⟨hv', hlookup, hcount⟩ := ih (hv.swap hi hm (Nat.ne_of_lt hlt)) hm
        exact ⟨hv', hlookup.trans (hv.lookup_swap hi hm (Nat.ne_of_lt hlt)), hcount⟩

/-- Moving down ends in an ordered heap. -/
theorem heapifyDownLoop_ordered {fuel : Nat} {h : Heap α} {i : Nat} (hfuel : h.count ≤ i + fuel)
    (ho : h.DownOrder O i) : (heapifyDownLoop O fuel h i).Ordered O := by
  induction fuel generalizing h i with
  | zero =>
      intro j hj hlt
      apply ho.except j hj hlt
      have := parent_lt hj
      have hcount : h.count ≤ i := hfuel
      have hlt' : j < h.count := hlt
      omega
  | succ fuel ih =>
      obtain ⟨hcase, hle, hmax⟩ := largest_cases O h i
      rw [heapifyDownLoop]
      split
      · rename_i heq
        rw [heq] at hmax
        intro j hj hlt
        by_cases hp : parent j = i
        · rw [hp]
          exact hmax j hj hlt hp
        · exact ho.except j hj hlt hp
      · rename_i hne
        obtain ⟨hlt, hm, hparent⟩ := hcase.resolve_left hne
        apply ih
        · have hcount : (h.swap O i (h.largest O i)).count = h.count := rfl
          omega
        · exact ho.swap hlt hm hparent hle hmax

/-! ### Adding and removing -/

/-- A new element is added. -/
theorem push_spec (hv : h.Valid O) (ho : h.Ordered O) {x : α} (hnew : h.lookup (O.key x) = none) :
    (h.push O x).Valid O ∧ (h.push O x).Ordered O ∧ (h.push O x).count = h.count + 1 ∧
      (h.push O x).lookup = Function.update h.lookup (O.key x) (some x) := by
  have hnone : h.position (O.key x) = none := Option.map_eq_none_iff.mp hnew
  have hfresh : ∀ i < h.count, O.key (h.entries i) ≠ O.key x := by
    intro i hi heq
    have hpos := hv.at_position i hi
    rw [heq, hnone] at hpos
    cases hpos
  have hvalid : ({ h with count := h.count + 1 }.place O h.count x).Valid O := by
    constructor
    · intro i hi
      simp only [place]
      by_cases hlast : i = h.count
      · rw [hlast, Function.update_self, Function.update_self]
      · have hlt : i < h.count := Nat.lt_of_le_of_ne (Nat.le_of_lt_succ hi) hlast
        rw [Function.update_of_ne hlast, Function.update_of_ne (hfresh i hlt)]
        exact hv.at_position i hlt
    · intro s i hs
      simp only [place] at hs ⊢
      by_cases hkey : s = O.key x
      · rw [hkey, Function.update_self] at hs
        obtain rfl := Option.some.inj hs
        rw [Function.update_self]
        exact ⟨Nat.lt_succ_self _, hkey.symm⟩
      · rw [Function.update_of_ne hkey] at hs
        obtain ⟨hlt, hkeyi⟩ := hv.positioned s i hs
        rw [Function.update_of_ne (Nat.ne_of_lt hlt)]
        exact ⟨Nat.lt_succ_of_lt hlt, hkeyi⟩
  have hlookup : ({ h with count := h.count + 1 }.place O h.count x).lookup =
      Function.update h.lookup (O.key x) (some x) := by
    funext s
    unfold lookup
    simp only [place]
    by_cases hkey : s = O.key x
    · subst hkey
      rw [Function.update_self, Function.update_self, Option.map_some, Function.update_self]
    · rw [Function.update_of_ne hkey, Function.update_of_ne hkey]
      apply Option.map_congr
      intro i hi
      exact Function.update_of_ne (Nat.ne_of_lt (hv.positioned s i hi).1) _ _
  have hup : ({ h with count := h.count + 1 }.place O h.count x).UpOrder O h.count := by
    constructor
    · intro i hpos hi hne
      have hlt : i < h.count := Nat.lt_of_le_of_ne (Nat.le_of_lt_succ hi) hne
      have hp := parent_lt hpos
      simp only [place]
      rw [Function.update_of_ne hne, Function.update_of_ne (by omega)]
      exact ho i hpos hlt
    · intro _ j hj hlt hp
      have hlt' : j < h.count + 1 := hlt
      have := parent_lt hj
      omega
  have hlast : h.count < ({ h with count := h.count + 1 }.place O h.count x).count :=
    Nat.lt_succ_self _
  obtain ⟨hv', hlookup', hcount⟩ := heapifyUpLoop_spec h.count hvalid hlast
  exact ⟨hv', (heapifyUpLoop_ordered (Nat.le_refl _) hlast hup).1, hcount, hlookup'.trans hlookup⟩

/-- Replacing an element by one with the same key and moving it up or down. -/
theorem place_up_spec (hv : h.Valid O) (ho : h.Ordered O) {i : Nat} {x : α} (hi : i < h.count)
    (hkey : O.key x = O.key (h.entries i)) (hle : O.prio (h.entries i) ≤ O.prio x) :
    ((h.place O i x).heapifyUp O i).Valid O ∧ ((h.place O i x).heapifyUp O i).Ordered O ∧
      ((h.place O i x).heapifyUp O i).count = h.count ∧
      ((h.place O i x).heapifyUp O i).lookup = Function.update h.lookup (O.key x) (some x) := by
  obtain ⟨hv', hlookup⟩ := hv.place hi hkey
  have hi' : i < (h.place O i x).count := hi
  obtain ⟨hv'', hlookup', hcount⟩ := heapifyUpLoop_spec i hv' hi'
  exact ⟨hv'', (heapifyUpLoop_ordered (Nat.le_refl _) hi' (ho.place_up hi hle)).1, hcount,
    hlookup'.trans hlookup⟩

theorem place_down_spec (hv : h.Valid O) (ho : h.Ordered O) {i : Nat} {x : α} (hi : i < h.count)
    (hkey : O.key x = O.key (h.entries i)) (hle : O.prio x ≤ O.prio (h.entries i)) :
    ((h.place O i x).heapifyDown O i).Valid O ∧ ((h.place O i x).heapifyDown O i).Ordered O ∧
      ((h.place O i x).heapifyDown O i).count = h.count ∧
      ((h.place O i x).heapifyDown O i).lookup = Function.update h.lookup (O.key x) (some x) := by
  obtain ⟨hv', hlookup⟩ := hv.place hi hkey
  have hi' : i < (h.place O i x).count := hi
  obtain ⟨hv'', hlookup', hcount⟩ := heapifyDownLoop_spec (h.place O i x).count hv' hi'
  exact ⟨hv'', heapifyDownLoop_ordered (Nat.le_add_left _ _) (ho.place_down hi hle), hcount,
    hlookup'.trans hlookup⟩

/-- Forget the position of a key. -/
def forget (h : Heap α) (s : Nat) : Heap α :=
  { h with position := Function.update h.position s none }

theorem swap_forget {i j s : Nat} (hi : O.key (h.entries i) ≠ s) (hj : O.key (h.entries j) ≠ s) :
    (h.swap O i j).forget s = (h.forget s).swap O i j := by
  simp only [swap, forget, Heap.mk.injEq, true_and]
  rw [Function.update_comm hj, Function.update_comm hi]

/-- Moving down does not look at the position of a key that is not in the heap. -/
theorem heapifyDownLoop_forget {fuel : Nat} {h : Heap α} {i s : Nat}
    (hs : ∀ j < h.count, O.key (h.entries j) ≠ s) :
    (heapifyDownLoop O fuel h i).forget s = heapifyDownLoop O fuel (h.forget s) i := by
  induction fuel generalizing h i with
  | zero => rfl
  | succ fuel ih =>
      have hsame : (h.forget s).largest O i = h.largest O i := rfl
      rw [heapifyDownLoop, heapifyDownLoop, hsame]
      split
      · rfl
      · rename_i hne
        obtain ⟨hlt, hm, -⟩ := (largest_cases O h i).1.resolve_left hne
        have hi : i < h.count := Nat.lt_trans hlt hm
        rw [ih, swap_forget (hs i hi) (hs _ hm)]
        intro j hj
        rw [swap_entries]
        split
        · exact hs i hi
        · split
          · exact hs _ hm
          · exact hs j hj

/-- The root is removed. -/
theorem extractMax_spec (hv : h.Valid O) (ho : h.Ordered O) (hpos : 0 < h.count) :
    (h.extractMax O).Valid O ∧ (h.extractMax O).Ordered O ∧
      (h.extractMax O).count = h.count - 1 ∧
      (h.extractMax O).lookup = Function.update h.lookup (O.key (h.entries 0)) none := by
  have hlast : h.count - 1 < h.count := by omega
  -- the last element at the root, one element less, and the old root forgotten
  have hentries : ∀ i, 0 < i → (h.place O 0 (h.entries (h.count - 1))).entries i = h.entries i :=
    fun i hi => place_entries_of_ne _ (Nat.ne_of_gt hi)
  have hroot : (h.place O 0 (h.entries (h.count - 1))).entries 0 = h.entries (h.count - 1) :=
    place_entries_self 0 _
  have hkeys : ∀ i < h.count - 1, O.key ((h.place O 0 (h.entries (h.count - 1))).entries i) ≠
      O.key (h.entries 0) := by
    intro i hi
    rcases Nat.eq_zero_or_pos i with rfl | hipos
    · rw [hroot]
      intro heq
      have := hv.key_inj hlast hpos heq
      omega
    · rw [hentries i hipos]
      intro heq
      have := hv.key_inj (by omega) hpos heq
      omega
  have hvalid : ({ h.place O 0 (h.entries (h.count - 1)) with count := h.count - 1 }.forget
      (O.key (h.entries 0))).Valid O := by
    constructor
    · intro i hi
      have hi' : i < h.count - 1 := hi
      have hkey := hkeys i hi'
      simp only [forget]
      rw [Function.update_of_ne hkey]
      rcases Nat.eq_zero_or_pos i with rfl | hipos
      · rw [hroot]
        exact Function.update_self ..
      · rw [hentries i hipos]
        simp only [place]
        rw [Function.update_of_ne]
        · exact hv.at_position i (by omega)
        · intro heq
          have := hv.key_inj (by omega) hlast heq
          omega
    · intro s i hs
      simp only [forget, place] at hs ⊢
      by_cases hk : s = O.key (h.entries 0)
      · rw [hk, Function.update_self] at hs
        cases hs
      · rw [Function.update_of_ne hk] at hs
        by_cases hl : s = O.key (h.entries (h.count - 1))
        · rw [hl, Function.update_self] at hs
          obtain rfl := Option.some.inj hs
          rw [Function.update_self]
          refine ⟨?_, hl.symm⟩
          by_contra hzero
          have : h.count - 1 = 0 := by omega
          rw [this] at hl
          exact hk hl
        · rw [Function.update_of_ne hl] at hs
          obtain ⟨hi, hkeyi⟩ := hv.positioned s i hs
          have hne : i ≠ 0 := by
            rintro rfl
            exact hk hkeyi.symm
          have hne' : i ≠ h.count - 1 := by
            intro heq
            exact hl (heq ▸ hkeyi.symm)
          rw [Function.update_of_ne hne]
          exact ⟨by omega, hkeyi⟩
  have hlookup : ({ h.place O 0 (h.entries (h.count - 1)) with count := h.count - 1 }.forget
      (O.key (h.entries 0))).lookup = Function.update h.lookup (O.key (h.entries 0)) none := by
    funext s
    unfold lookup
    simp only [forget, place]
    by_cases hk : s = O.key (h.entries 0)
    · rw [hk, Function.update_self, Function.update_self]
      rfl
    · rw [Function.update_of_ne hk, Function.update_of_ne hk]
      by_cases hl : s = O.key (h.entries (h.count - 1))
      · rw [hl, Function.update_self, hv.at_position _ hlast, Option.map_some, Option.map_some,
          Function.update_self]
      · rw [Function.update_of_ne hl]
        apply Option.map_congr
        intro i hi
        apply Function.update_of_ne
        rintro rfl
        exact hk (hv.positioned s 0 hi).2.symm
  have hdown : ({ h.place O 0 (h.entries (h.count - 1)) with count := h.count - 1 }.forget
      (O.key (h.entries 0))).DownOrder O 0 := by
    constructor
    · intro j hj hlt hp
      have hlt' : j < h.count - 1 := hlt
      have hj' := ho j hj (by omega)
      simp only [forget]
      rw [hentries j hj, hentries (parent j) (Nat.pos_of_ne_zero hp)]
      exact hj'
    · intro hzero
      exact absurd hzero (Nat.lt_irrefl 0)
  have hforget : h.extractMax O = heapifyDownLoop O (h.count - 1)
      ({ h.place O 0 (h.entries (h.count - 1)) with count := h.count - 1 }.forget
        (O.key (h.entries 0))) 0 := by
    rw [← heapifyDownLoop_forget hkeys]
    rfl
  rw [hforget]
  have hfuel := Nat.le_add_left (h.count - 1) 0
  have hordered := heapifyDownLoop_ordered hfuel hdown
  rcases Nat.eq_zero_or_pos (h.count - 1) with hzero | hpos'
  · rw [hzero] at hordered ⊢
    rw [hzero] at hvalid hlookup
    exact ⟨hvalid, hordered, rfl, hlookup⟩
  · obtain ⟨hv', hlookup', hcount⟩ := heapifyDownLoop_spec (h.count - 1) hvalid hpos'
    exact ⟨hv', hordered, hcount, hlookup'.trans hlookup⟩

/-- An element that is replaced by one of greater priority than all others is removed with the
root. -/
theorem place_extractMax_spec (hv : h.Valid O) (ho : h.Ordered O) {i : Nat} {x : α}
    (hi : i < h.count) (hkey : O.key x = O.key (h.entries i))
    (hgreatest : ∀ j < h.count, O.prio (h.entries j) < O.prio x) :
    (((h.place O i x).heapifyUp O i).extractMax O).Valid O ∧
      (((h.place O i x).heapifyUp O i).extractMax O).Ordered O ∧
      (((h.place O i x).heapifyUp O i).extractMax O).count = h.count - 1 ∧
      (((h.place O i x).heapifyUp O i).extractMax O).lookup =
        Function.update h.lookup (O.key x) none := by
  have hle := le_of_lt (hgreatest i hi)
  obtain ⟨hv', ho', hcount, hlookup⟩ := place_up_spec hv ho hi hkey hle
  have hi' : i < (h.place O i x).count := hi
  have hx : (h.place O i x).entries i = x := place_entries_self i x
  have hroot : ((h.place O i x).heapifyUp O i).entries 0 = x := by
    have htop := (heapifyUpLoop_ordered (Nat.le_refl _) hi' (ho.place_up hi hle)).2
    rw [hx] at htop
    apply htop
    intro j hj hji
    rw [place_entries_of_ne x hji]
    exact hgreatest j hj
  have hpos : 0 < ((h.place O i x).heapifyUp O i).count := by
    rw [hcount]
    exact Nat.zero_lt_of_lt hi
  obtain ⟨hv'', ho'', hcount', hlookup'⟩ := extractMax_spec hv' ho' hpos
  refine ⟨hv'', ho'', by rw [hcount', hcount], ?_⟩
  rw [hlookup', hroot, hlookup, Function.update_idem]

end Heap

end OpenRoad.IndexedHeap
