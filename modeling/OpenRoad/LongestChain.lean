import Mathlib.Algebra.BigOperators.Group.List.Basic
import Mathlib.Algebra.Order.Group.Defs
import Mathlib.Algebra.Order.Monoid.Defs
import Mathlib.Data.List.Induction
import Mathlib.Order.Bounds.Basic

/-!
Longest chains. Every element starts where the longest chain of elements before it ends. When the
elements come in an order that the relation follows, and are before one another as their positions
are, one sweep finds the starts: the entry of a position is the greatest end of an element up to the
position, and an element raises the entries from its own position on.
-/

namespace OpenRoad

variable {α K : Type*} [LinearOrder K]

/-- The ends of some elements, and the start of all. -/
def ends [AddCommMonoid K] (x w : α → K) (s : Set α) : Set K := insert 0 ((fun a => x a + w a) '' s)

/-- The total weights of the chains that lead to an element. -/
def chainTotals [AddCommMonoid K] (R : α → α → Prop) (w : α → K) (b : α) : Set K :=
  {t | ∃ c : List α, (c ++ [b]).Pairwise R ∧ t = (c.map w).sum}

section Chain

variable [AddCommMonoid K] {R : α → α → Prop} {x w : α → K}

/-- An element that starts at the greatest end before it starts at the greatest total of a chain. -/
theorem isGreatest_chainTotals [IsOrderedAddMonoid K] (hR : ∀ a b c, R a b → R b c → R a c) (s : Set α)
    (hs : ∀ a b, R a b → a ∈ s) (rank : α → Nat) (hrank : ∀ a b, R a b → rank a < rank b)
    (hx : ∀ b ∈ s, IsGreatest (ends x w {a | R a b}) (x b)) {b : α} (hb : b ∈ s) :
    IsGreatest (chainTotals R w b) (x b) := by
  induction hn : rank b using Nat.strong_induction_on generalizing b with
  | _ n ih =>
      subst hn
      constructor
      · rcases (hx b hb).1 with hzero | ⟨a, hab, hend⟩
        · exact ⟨[], List.pairwise_singleton R b, hzero⟩
        · obtain ⟨c, hc, htotal⟩ := (ih (rank a) (hrank a b hab) (hs a b hab) rfl).1
          refine ⟨c ++ [a], ?_, ?_⟩
          · rw [List.pairwise_append] at hc ⊢
            refine ⟨List.pairwise_append.mpr hc, List.pairwise_singleton R b, fun d hd e he => ?_⟩
            obtain rfl := List.mem_singleton.mp he
            rcases List.mem_append.mp hd with hd | hd
            · exact hR d a e (hc.2.2 d hd a (List.mem_singleton_self a)) hab
            · exact List.mem_singleton.mp hd ▸ hab
          · rw [← hend, List.map_append, List.sum_append, List.map_singleton, List.sum_singleton, ← htotal]
      · rintro t ⟨c, hc, rfl⟩
        induction c using List.reverseRecOn with
        | nil => exact (hx b hb).2 (Set.mem_insert _ _)
        | append_singleton c a _ =>
            have hab : R a b := (List.pairwise_append.mp hc).2.2 a
              (List.mem_append_right _ (List.mem_singleton_self a)) b (List.mem_singleton_self b)
            have hle : (c.map w).sum ≤ x a := (ih (rank a) (hrank a b hab) (hs a b hab) rfl).2
              ⟨c, (List.pairwise_append.mp hc).1, rfl⟩
            calc ((c ++ [a]).map w).sum = (c.map w).sum + w a := by
                  rw [List.map_append, List.sum_append, List.map_singleton, List.sum_singleton]
              _ ≤ x a + w a := add_le_add_left hle (w a)
              _ ≤ x b := (hx b hb).2 (Set.mem_insert_of_mem _ ⟨a, hab, rfl⟩)

end Chain

/-! ### The sweep -/

/-- Raises the entries from the position on, up to the first that is large enough. -/
def raise (v : K) : Nat → List K → List K
  | 0, a :: acc => if a < v then v :: raise v 0 acc else a :: acc
  | p + 1, a :: acc => a :: raise v p acc
  | _, [] => []

@[simp] theorem length_raise (v : K) (p : Nat) (acc : List K) : (raise v p acc).length = acc.length := by
  induction acc generalizing p with
  | nil => cases p <;> rfl
  | cons a acc ih =>
      cases p with
      | zero =>
          rw [raise]
          split
          · rw [List.length_cons, ih, List.length_cons]
          · rfl
      | succ p => rw [raise, List.length_cons, ih, List.length_cons]

/-- In a monotone list every entry from the position on is raised. -/
theorem getElem?_raise {v : K} {acc : List K} (hacc : acc.Pairwise (· ≤ ·)) (p j : Nat) :
    (raise v p acc)[j]? = acc[j]?.map fun a => if p ≤ j then max a v else a := by
  induction acc generalizing p j with
  | nil => cases p <;> rfl
  | cons a acc ih =>
      obtain ⟨hhead, htail⟩ := List.pairwise_cons.mp hacc
      cases p with
      | zero =>
          rw [raise]
          by_cases hav : a < v
          · rw [if_pos hav]
            cases j with
            | zero => simp [max_eq_right hav.le]
            | succ j => simpa using ih htail 0 j
          · rw [if_neg hav]
            have hsame : ∀ b ∈ a :: acc, max b v = b := by
              intro b hb
              rcases List.mem_cons.mp hb with rfl | hb
              · exact max_eq_left (not_lt.mp hav)
              · exact max_eq_left ((not_lt.mp hav).trans (hhead b hb))
            cases hj : (a :: acc)[j]? with
            | none => rfl
            | some b => simp [hsame b (List.mem_of_getElem? hj)]
      | succ p =>
          cases j with
          | zero => simp [raise]
          | succ j => simpa [raise] using ih htail p j

variable [AddCommMonoid K]

/-- The entry of a position is the greatest end of the elements `done` up to the position. -/
def Swept (pos : α → Nat) (x w : α → K) (done : Set α) (acc : List K) : Prop :=
  ∀ j a, acc[j]? = some a → IsGreatest (ends x w {b | b ∈ done ∧ pos b ≤ j}) a

namespace Swept

variable {pos : α → Nat} {x w : α → K} {done : Set α} {acc : List K}

theorem sorted (h : Swept pos x w done acc) : acc.Pairwise (· ≤ ·) := by
  rw [List.pairwise_iff_getElem]
  intro i j hi hj hij
  refine (h i _ (List.getElem?_eq_getElem hi)).mono (h j _ (List.getElem?_eq_getElem hj)) ?_
  exact Set.insert_subset_insert (Set.image_mono fun b hb => ⟨hb.1, hb.2.trans hij.le⟩)

theorem start (pos : α → Nat) (x w : α → K) (n : Nat) :
    Swept pos x w ∅ (List.replicate n (0 : K)) := by
  intro j a ha
  have hzero : a = 0 := List.eq_of_mem_replicate (List.mem_of_getElem? ha)
  have hnone : {b | b ∈ (∅ : Set α) ∧ pos b ≤ j} = ∅ := Set.eq_empty_of_forall_notMem fun b hb => hb.1
  rw [ends, hnone, Set.image_empty, hzero]
  refine ⟨Set.mem_insert _ _, fun t ht => ?_⟩
  rcases ht with rfl | ht
  · exact le_refl _
  · exact ht.elim

/-- An element raises the entries from its position on to its end. -/
theorem push (h : Swept pos x w done acc) (b : α) :
    Swept pos x w (insert b done) (raise (x b + w b) (pos b) acc) := by
  intro j a ha
  rw [getElem?_raise h.sorted] at ha
  obtain ⟨a', ha', rfl⟩ := Option.map_eq_some_iff.mp ha
  have hold := h j a' ha'
  by_cases hj : pos b ≤ j
  · have hset : {c | c ∈ insert b done ∧ pos c ≤ j} = insert b {c | c ∈ done ∧ pos c ≤ j} := by
      ext c
      constructor
      · rintro ⟨rfl | hc, hle⟩
        · exact Set.mem_insert _ _
        · exact Set.mem_insert_of_mem _ ⟨hc, hle⟩
      · rintro (rfl | ⟨hc, hle⟩)
        · exact ⟨Set.mem_insert _ _, hj⟩
        · exact ⟨Set.mem_insert_of_mem _ hc, hle⟩
    have hends : ends x w {c | c ∈ insert b done ∧ pos c ≤ j} =
        insert (x b + w b) (ends x w {c | c ∈ done ∧ pos c ≤ j}) := by
      rw [ends, hset, Set.image_insert_eq, Set.insert_comm]
      rfl
    rw [if_pos hj, hends, max_comm]
    exact hold.insert _
  · have hset : {c | c ∈ insert b done ∧ pos c ≤ j} = {c | c ∈ done ∧ pos c ≤ j} := by
      ext c
      constructor
      · rintro ⟨rfl | hc, hle⟩
        · exact absurd hle hj
        · exact ⟨hc, hle⟩
      · rintro ⟨hc, hle⟩
        exact ⟨Set.mem_insert_of_mem _ hc, hle⟩
    rw [if_neg hj, hset]
    exact hold

end Swept

end OpenRoad
