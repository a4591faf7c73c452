import Mathlib.Algebra.BigOperators.Group.List.Basic
import Mathlib.Algebra.Order.BigOperators.Group.List
import Mathlib.Algebra.Order.Group.Nat
import Mathlib.Algebra.GroupWithZero.Nat
import Mathlib.Logic.Function.Basic

/-!
Ledgers of counters. Charges, each a key and an amount, are posted one after the other; what a key
holds at the end depends on its own charges only. Counters may be exact, or wrap around at sixteen
bits: then a list of charges is taken back without a borrow exactly when no key is charged for more
than it holds.
-/

namespace OpenRoad.Tally

variable {κ ν M : Type*} [DecidableEq κ]

/-- The amounts a key is charged, in order. -/
def entries (charges : List (κ × ν)) (key : κ) : List ν :=
  (charges.filter fun charge => charge.1 = key).map Prod.snd

/-- What a key is charged together. -/
def total [AddCommMonoid ν] (charges : List (κ × ν)) (key : κ) : ν := (entries charges key).sum

/-- The charges are posted one after the other. -/
def post (op : M → ν → M) (ledger : κ → M) (charges : List (κ × ν)) : κ → M :=
  charges.foldl (fun ledger charge =>
    Function.update ledger charge.1 (op (ledger charge.1) charge.2)) ledger

@[simp] theorem entries_nil (key : κ) : entries ([] : List (κ × ν)) key = [] := rfl

theorem entries_cons (charge : κ × ν) (charges : List (κ × ν)) (key : κ) :
    entries (charge :: charges) key =
      if charge.1 = key then charge.2 :: entries charges key else entries charges key := by
  unfold entries
  by_cases hkey : charge.1 = key
  · simp [hkey]
  · simp [hkey]

@[simp] theorem entries_append (charges rest : List (κ × ν)) (key : κ) :
    entries (charges ++ rest) key = entries charges key ++ entries rest key := by
  unfold entries
  rw [List.filter_append, List.map_append]

theorem entries_perm {charges rest : List (κ × ν)} (hperm : charges.Perm rest) (key : κ) :
    (entries charges key).Perm (entries rest key) :=
  (hperm.filter _).map _

/-- What is posted on a key depends on its own charges only. -/
theorem post_apply (op : M → ν → M) (ledger : κ → M) (charges : List (κ × ν)) (key : κ) :
    post op ledger charges key = (entries charges key).foldl op (ledger key) := by
  induction charges generalizing ledger with
  | nil => rfl
  | cons charge charges ih =>
      have hstep := ih (Function.update ledger charge.1 (op (ledger charge.1) charge.2))
      rw [entries_cons]
      refine hstep.trans ?_
      by_cases hkey : charge.1 = key
      · rw [if_pos hkey, ← hkey, Function.update_self, List.foldl_cons]
      · rw [if_neg hkey, Function.update_of_ne (Ne.symm hkey)]

section Total

variable [AddCommMonoid ν]

@[simp] theorem total_nil (key : κ) : total ([] : List (κ × ν)) key = 0 := rfl

theorem total_cons (charge : κ × ν) (charges : List (κ × ν)) (key : κ) :
    total (charge :: charges) key =
      (if charge.1 = key then charge.2 else 0) + total charges key := by
  unfold total
  rw [entries_cons]
  split
  · rw [List.sum_cons]
  · rw [zero_add]

@[simp] theorem total_append (charges rest : List (κ × ν)) (key : κ) :
    total (charges ++ rest) key = total charges key + total rest key := by
  unfold total
  rw [entries_append, List.sum_append]

theorem total_perm {charges rest : List (κ × ν)} (hperm : charges.Perm rest) (key : κ) :
    total charges key = total rest key :=
  (entries_perm hperm key).sum_eq

/-- The charges of a list of accounts, one account after the other. -/
theorem total_flatMap {α : Type*} (charges : α → List (κ × ν)) (accounts : List α) (key : κ) :
    total (accounts.flatMap charges) key =
      (accounts.map fun account => total (charges account) key).sum := by
  induction accounts with
  | nil => rfl
  | cons account accounts ih =>
      rw [List.flatMap_cons, total_append, ih, List.map_cons, List.sum_cons]

/-- Charges that are split into two lists by a test. -/
theorem total_filter {α : Type*} (charges : α → List (κ × ν)) (test : α → Bool) (accounts : List α)
    (key : κ) :
    total (accounts.flatMap charges) key =
      total ((accounts.filter test).flatMap charges) key +
        total ((accounts.filter fun account => !test account).flatMap charges) key := by
  have hperm := (List.filter_append_perm test accounts).flatMap_right charges
  rw [List.flatMap_append] at hperm
  exact (total_perm hperm key).symm.trans (total_append _ _ key)

end Total

theorem total_le (charges : List (κ × Nat)) (key : κ) :
    total charges key ≤ (charges.map Prod.snd).sum := by
  apply List.Sublist.sum_le_sum
  · exact List.filter_sublist.map Prod.snd
  · exact fun _ _ => Nat.zero_le _

/-! ### Exact counters -/

/-! ### Counters of sixteen bits -/

def addTo (counter : UInt16) (amount : Nat) : UInt16 := counter + UInt16.ofNat amount

def takeFrom (counter : UInt16) (amount : Nat) : UInt16 := counter - UInt16.ofNat amount

theorem post_addTo (ledger : κ → UInt16) (charges : List (κ × Nat)) (key : κ) :
    post addTo ledger charges key = ledger key + UInt16.ofNat (total charges key) := by
  rw [post_apply]
  have hfold : ∀ (list : List Nat) (a : UInt16), list.foldl addTo a = a + UInt16.ofNat list.sum := by
    intro list
    induction list with
    | nil => exact fun a => (UInt16.add_zero a).symm
    | cons b list ih =>
        intro a
        calc (b :: list).foldl addTo a = a + UInt16.ofNat b + UInt16.ofNat list.sum := ih _
          _ = a + UInt16.ofNat (b :: list).sum := by
            rw [List.sum_cons, UInt16.ofNat_add, UInt16.add_assoc]
  exact hfold _ _

theorem post_takeFrom (ledger : κ → UInt16) (charges : List (κ × Nat)) (key : κ) :
    post takeFrom ledger charges key = ledger key - UInt16.ofNat (total charges key) := by
  rw [post_apply]
  have hfold : ∀ (list : List Nat) (a : UInt16),
      list.foldl takeFrom a = a - UInt16.ofNat list.sum := by
    intro list
    induction list with
    | nil => exact fun a => (UInt16.sub_zero a).symm
    | cons b list ih =>
        intro a
        calc (b :: list).foldl takeFrom a = a - UInt16.ofNat b - UInt16.ofNat list.sum := ih _
          _ = a - UInt16.ofNat (b :: list).sum := by
            rw [List.sum_cons, UInt16.ofNat_add]
            grind
  exact hfold _ _

/-- Every charge is at most what its key holds when the charge is taken. -/
def Covered (ledger : κ → UInt16) : List (κ × Nat) → Prop
  | [] => True
  | charge :: charges =>
      charge.2 ≤ (ledger charge.1).toNat ∧ Covered (post takeFrom ledger [charge]) charges

theorem takeFrom_toNat {counter : UInt16} {amount : Nat} (hle : amount ≤ counter.toNat) :
    (takeFrom counter amount).toNat = counter.toNat - amount := by
  have hamount : (UInt16.ofNat amount).toNat = amount :=
    UInt16.toNat_ofNat_of_lt' (Nat.lt_of_le_of_lt hle counter.toNat_lt)
  have hsub : UInt16.ofNat amount ≤ counter := by
    rw [UInt16.le_iff_toNat_le, hamount]
    exact hle
  unfold takeFrom
  rw [UInt16.toNat_sub_of_le _ _ hsub, hamount]

/-- Nothing goes below zero exactly when no key is charged for more than it holds. -/
theorem covered_iff (ledger : κ → UInt16) (charges : List (κ × Nat)) :
    Covered ledger charges ↔ ∀ key, total charges key ≤ (ledger key).toNat := by
  induction charges generalizing ledger with
  | nil => exact ⟨fun _ key => Nat.zero_le _, fun _ => trivial⟩
  | cons charge charges ih =>
      have hpost : ∀ key, post takeFrom ledger [charge] key =
          if charge.1 = key then takeFrom (ledger key) charge.2 else ledger key := by
        intro key
        rw [post_apply, entries_cons]
        split
        · rfl
        · rfl
      show charge.2 ≤ (ledger charge.1).toNat ∧ Covered (post takeFrom ledger [charge]) charges ↔ _
      rw [ih]
      constructor
      · rintro ⟨hcharge, hrest⟩ key
        have hkey := hrest key
        rw [hpost] at hkey
        rw [total_cons]
        by_cases heq : charge.1 = key
        · rw [if_pos heq, takeFrom_toNat (heq ▸ hcharge)] at hkey
          rw [if_pos heq]
          have hle : charge.2 ≤ (ledger key).toNat := heq ▸ hcharge
          omega
        · rw [if_neg heq] at hkey
          rw [if_neg heq]
          omega
      · intro hall
        have hcharge : charge.2 ≤ (ledger charge.1).toNat := by
          have hself := hall charge.1
          rw [total_cons, if_pos rfl] at hself
          omega
        refine ⟨hcharge, fun key => ?_⟩
        have hkey := hall key
        rw [hpost]
        rw [total_cons] at hkey
        by_cases heq : charge.1 = key
        · rw [if_pos heq] at hkey ⊢
          rw [takeFrom_toNat (heq ▸ hcharge)]
          omega
        · rw [if_neg heq] at hkey ⊢
          omega

end OpenRoad.Tally
