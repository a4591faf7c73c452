import OpenRoad.DplGrid
import Mathlib.Algebra.BigOperators.Group.Finset.Basic

/-!
Shifting a row of cells towards their targets: a dynamic program over the sites between two limits
and the cells in their order, and the way back through its tables. Costs are sums of distances; a
cost that is not set is the greatest one there is.
-/

namespace OpenRoad.Dpl

/-- The arguments of `DetailedMgr::shift`, with what it reads of the row, the cells and their
padding. The cells and the positions are indexed from zero. -/
structure ShiftCall where
  originX : Int
  siteSpacing : Int
  siteWidth : Int
  usePadding : Bool
  paddingSiteWidth : Int
  ncells : Nat
  width : Nat → Int
  padLeft : Nat → Int
  padRight : Nat → Int
  targetLeft : Nat → Int
  leftLimit : Int
  rightLimit : Int

/-- An entry of the tables `tcost` and `prev`; `none` is the greatest cost, and a pair of minus
ones. -/
structure ShiftEntry where
  tcost : Option Nat
  prev : Option (Nat × Nat)

namespace ShiftEntry

def unset : ShiftEntry := ⟨none, none⟩

/-- `c < tcost` -/
def less : Option Nat → Option Nat → Bool
  | some c, some tcost => c < tcost
  | some _, none => true
  | none, _ => false

/-- The entry after a cost is compared with its own. -/
def offer (entry : ShiftEntry) (c : Option Nat) (before : Nat × Nat) : ShiftEntry :=
  if less c entry.tcost then ⟨c, some before⟩ else entry

end ShiftEntry

namespace ShiftCall

variable (I : ShiftCall)

/-- `getCellSpacing` between a cell and the next one -/
def cellSpacing (k : Nat) : Int :=
  if I.usePadding then
    max 0 (I.padRight k * I.paddingSiteWidth + I.padLeft (k + 1) * I.paddingSiteWidth)
  else 0

def i0 : Int :=
  let i0 := (I.leftLimit - I.originX).tdiv I.siteSpacing
  if I.originX + i0 * I.siteSpacing < I.leftLimit then i0 + 1 else i0

def i1 : Int :=
  let i1 := (I.rightLimit - I.originX).tdiv I.siteSpacing
  if I.originX + i1 * I.siteSpacing + I.siteWidth ≥ I.rightLimit then i1 - 1 else i1

def nsites : Int := I.i1 - I.i0 + 1

/-- The width of a cell in sites, with the spacing to the next cell. -/
def swid (k : Nat) : Int :=
  (if k + 1 = I.ncells then I.width k else I.width k + I.cellSpacing k).tdiv I.siteSpacing

def rsites : Int := ∑ k ∈ Finset.range I.ncells, I.swid k

/-- `site_l` -/
def siteL : Nat → Int
  | 0 => I.i0
  | k + 1 => siteL k + I.swid k

/-- `site_r`, of the cell that is the given number of cells from the end. -/
def siteREnd : Nat → Int
  | 0 => I.i1 + 1
  | m + 1 => siteREnd m - I.swid (I.ncells - 1 - m)

def siteR (k : Nat) : Int := I.siteREnd (I.ncells - k)

/-! ### Tables

Column `j` and row `i` stand for the first `j` cells on the first `i` sites. -/

def siteId (i : Nat) : Int := I.i0 + i - 1

def sitePos (i : Nat) : Int := I.originX + I.siteId i * I.siteSpacing

/-- `cost[i][j]`, of the cell with index `j - 1`; zero where the site is invalid. -/
def cost (i j : Nat) : Nat :=
  if I.siteId i < I.siteL (j - 1) ∨ I.siteId i > I.siteR (j - 1) then 0
  else (I.sitePos i - I.targetLeft (j - 1)).natAbs

def prevWid (j : Nat) : Int := if j - 1 = 0 then 1 else I.swid (j - 2)

/-- The loop over the sites for one cell, with the entries of the cell before. -/
def fillColumn (j : Nat) (before : Nat → ShiftEntry) : Nat → ShiftEntry
  | 0 => ShiftEntry.unset
  | i + 1 =>
      let entry := ShiftEntry.unset.offer (fillColumn j before i).tcost (i, j)
      let ii := (i + 1 : Nat) - I.prevWid j
      if ii < 0 ∨ I.siteId (i + 1) + I.swid (j - 1) - 1 > I.i1 then entry
      else entry.offer ((before ii.toNat).tcost.map (· + I.cost (i + 1) j)) (ii.toNat, j - 1)

/-- The columns of the tables; of the first one only the entry of no sites is set. -/
def column : Nat → Nat → ShiftEntry
  | 0 => fun i => if i = 0 then ⟨some 0, none⟩ else ShiftEntry.unset
  | j + 1 => I.fillColumn (j + 1) (column j)

/-- The way back from an entry passes the entry of no cells and no sites. -/
def okay : Nat → Nat × Nat → Bool
  | 0, _ => false
  | fuel + 1, curr =>
      curr = (0, 0) || ((I.column curr.2 curr.1).prev.elim false fun prev => okay fuel prev)

/-- The way back, with the positions of the cells. -/
def place : Nat → Nat × Nat → (Nat → Int) → Nat → Int
  | 0, _, posLeft => posLeft
  | fuel + 1, curr, posLeft =>
      if curr = (0, 0) then posLeft
      else
        match (I.column curr.2 curr.1).prev with
        -- does not happen once the way back is found to be okay
        | none => posLeft
        | some prev =>
            place fuel prev (if curr.2 ≠ prev.2 then
              Function.update posLeft (curr.2 - 1) (I.sitePos curr.1) else posLeft)

/-- `shift`: the new positions, or `none` where it returns false. -/
def shift (posLeft : Nat → Int) : Option (Nat → Int) :=
  if I.rsites > I.nsites then none
  else if ∃ k ∈ Finset.range I.ncells, I.siteR k < I.siteL k then none
  else
    let last := (I.nsites.toNat, I.ncells)
    let fuel := I.nsites.toNat + I.ncells + 1
    if I.okay fuel last then some (I.place fuel last posLeft) else none

end ShiftCall

end OpenRoad.Dpl

/-!
What the tables of a shift hold. An entry is the least cost of a chain: the cells in their order,
each behind the one before, with the first cell on the first site, since no other entry of the first
column is set. The way back gives a chain of that cost, whose last cell is as far left as it can be.
-/

namespace OpenRoad.Dpl

namespace ShiftEntry

/-- An offer is taken when the entry is not set or costs more. -/
theorem offer_cases (entry : ShiftEntry) (c : Option Nat) (before : Nat × Nat) :
    (entry.offer c before = entry ∧ ∀ c', c = some c' → ∃ t, entry.tcost = some t ∧ t ≤ c') ∨
    ∃ c', c = some c' ∧ entry.offer c before = ⟨some c', some before⟩ ∧
      ∀ t, entry.tcost = some t → c' < t := by
  unfold offer
  cases c with
  | none => exact Or.inl ⟨if_neg Bool.false_ne_true, fun c' h => nomatch h⟩
  | some c =>
      cases ht : entry.tcost with
      | none => exact Or.inr ⟨c, rfl, if_pos rfl, fun t h => nomatch h⟩
      | some t =>
          rcases lt_or_ge c t with hlt | hle
          · refine Or.inr ⟨c, rfl, if_pos (decide_eq_true hlt), fun t' h => ?_⟩
            rwa [← Option.some.inj h]
          · refine Or.inl ⟨if_neg fun h => ?_, fun c' h => ⟨t, rfl, ?_⟩⟩
            · exact absurd (of_decide_eq_true h) (Nat.not_lt.mpr hle)
            · rwa [← Option.some.inj h]

end ShiftEntry

namespace ShiftCall

variable (I : ShiftCall)

/-- The first `j` cells on some of the first `i` sites. Sites are counted from one. -/
structure Chain (j i : Nat) (a : Nat → Nat) : Prop where
  first : 0 < j → a 0 = 1
  apart : ∀ k, k + 1 < j → a k + I.swid k ≤ a (k + 1)
  fits : ∀ k < j, a k + I.swid k - 1 ≤ I.nsites
  last : ∀ k < j, a k ≤ i

/-- The cost of the first `j` cells in the tables. -/
def chainCost (j : Nat) (a : Nat → Nat) : Nat := ∑ k ∈ Finset.range j, I.cost (a k) (k + 1)

theorem chainCost_succ (j : Nat) (a : Nat → Nat) :
    I.chainCost (j + 1) a = I.chainCost j a + I.cost (a j) (j + 1) := Finset.sum_range_succ _ _

theorem chainCost_congr {j : Nat} {a b : Nat → Nat} (h : ∀ k < j, a k = b k) :
    I.chainCost j a = I.chainCost j b :=
  Finset.sum_congr rfl fun k hk => by rw [h k (Finset.mem_range.mp hk)]

variable {I} {i j : Nat} {a : Nat → Nat}

theorem prevWid_one : I.prevWid 1 = 1 := rfl

theorem prevWid_succ (j : Nat) : I.prevWid (j + 2) = I.swid j := rfl

/-- The sites that are left for the cells before one that is on site `i + 1`. -/
def usedSites (I : ShiftCall) (j i : Nat) : Int := (i + 1 : Nat) - I.prevWid (j + 1)

/-- Putting a cell on a site is allowed. -/
def Usable (I : ShiftCall) (j i : Nat) : Prop :=
  0 ≤ usedSites I j i ∧ I.siteId (i + 1) + I.swid j - 1 ≤ I.i1

theorem column_succ (I : ShiftCall) (j i : Nat) :
    I.column (j + 1) (i + 1) =
      let entry := ShiftEntry.unset.offer (I.column (j + 1) i).tcost (i, j + 1)
      if usedSites I j i < 0 ∨ I.siteId (i + 1) + I.swid j - 1 > I.i1 then entry
      else entry.offer ((I.column j (usedSites I j i).toNat).tcost.map (· + I.cost (i + 1) (j + 1)))
        ((usedSites I j i).toNat, j) := rfl

theorem unset_offer (c : Option Nat) (before : Nat × Nat) :
    ShiftEntry.unset.offer c before = ⟨c, c.map fun _ => before⟩ := by
  cases c <;> rfl

/-- An entry is not set, or repeats the one above, which is the better choice or the only one, or
comes from putting the cell on its site. -/
theorem column_succ_cases (I : ShiftCall) (j i : Nat) :
    let entry := I.column (j + 1) (i + 1)
    let used := (I.column j (usedSites I j i).toNat).tcost.map (· + I.cost (i + 1) (j + 1))
    (entry = ShiftEntry.unset ∧ (I.column (j + 1) i).tcost = none ∧ (Usable I j i → used = none)) ∨
    (∃ c, entry = ⟨some c, some (i, j + 1)⟩ ∧ (I.column (j + 1) i).tcost = some c ∧
      ∀ c', Usable I j i → used = some c' → c ≤ c') ∨
    ∃ c, entry = ⟨some c, some ((usedSites I j i).toNat, j)⟩ ∧ Usable I j i ∧ used = some c ∧
      ∀ c', (I.column (j + 1) i).tcost = some c' → c < c' := by
  dsimp only
  rw [column_succ, unset_offer]
  dsimp only
  by_cases husable : Usable I j i
  · rw [if_neg (by unfold Usable at husable; omega)]
    rcases ShiftEntry.offer_cases ⟨(I.column (j + 1) i).tcost,
      (I.column (j + 1) i).tcost.map fun _ => (i, j + 1)⟩
      ((I.column j (usedSites I j i).toNat).tcost.map (· + I.cost (i + 1) (j + 1)))
      ((usedSites I j i).toNat, j) with ⟨heq, hle⟩ | ⟨c, hused, heq, hlt⟩
    · rw [heq]
      cases hskip : (I.column (j + 1) i).tcost with
      | none =>
          refine Or.inl ⟨rfl, rfl, fun _ => Option.eq_none_iff_forall_not_mem.mpr fun c hc => ?_⟩
          obtain ⟨t, ht, -⟩ := hle c hc
          rw [hskip] at ht
          cases ht
      | some c =>
          refine Or.inr (Or.inl ⟨c, rfl, rfl, fun c' _ hc' => ?_⟩)
          obtain ⟨t, ht, hle⟩ := hle c' hc'
          rw [hskip] at ht
          rwa [Option.some.inj ht]
    · rw [heq]
      exact Or.inr (Or.inr ⟨c, rfl, husable, hused, hlt⟩)
  · rw [if_pos (by unfold Usable at husable; omega)]
    cases hskip : (I.column (j + 1) i).tcost with
    | none => exact Or.inl ⟨rfl, rfl, fun h => absurd h husable⟩
    | some c => exact Or.inr (Or.inl ⟨c, rfl, rfl, fun c' h => absurd h husable⟩)

/-! ### A lower bound -/

theorem Chain.mono {i' : Nat} (h : I.Chain j i a) (hle : i ≤ i') : I.Chain j i' a :=
  { h with last := fun k hk => (h.last k hk).trans hle }

/-- The cells before the last one, which leaves them their sites. -/
theorem Chain.init {i' : Nat} (h : I.Chain (j + 1) i a) (hlast : ∀ k < j, a k ≤ i') :
    I.Chain j i' a where
  first := fun _ => h.first j.succ_pos
  apart := fun k hk => h.apart k (hk.trans j.lt_succ_self)
  fits := fun k hk => h.fits k (hk.trans j.lt_succ_self)
  last := hlast

/-- Cells of a chain stand in their order. -/
theorem Chain.le_of_lt (hswid : ∀ k, k + 1 < I.ncells → 0 < I.swid k) (hj : j ≤ I.ncells)
    (h : I.Chain j i a) {m : Nat} : ∀ {k : Nat}, k ≤ m → m < j → a k ≤ a m := by
  induction m with
  | zero =>
      intro k hk _
      rw [Nat.le_zero.mp hk]
  | succ m ih =>
      intro k hk hm
      rcases hk.eq_or_lt with rfl | hlt
      · exact le_rfl
      · have hprev := ih (Nat.le_of_lt_succ hlt) (by omega)
        have hstep := h.apart m hm
        have hpos := hswid m (by omega)
        omega

/-- The cells before one on site `i + 1` are on the sites that are left for them. -/
theorem Chain.before (hj : j + 1 ≤ I.ncells) (h : I.Chain (j + 1) (i + 1) a) (hlast : a j = i + 1)
    (hmono : ∀ k < j, a k ≤ a (j - 1)) :
    Usable I j i ∧ I.Chain j (usedSites I j i).toNat a ∧
      (j = 0 → (usedSites I j i).toNat = 0) := by
  have hfits := h.fits j j.lt_succ_self
  rw [hlast] at hfits
  unfold Usable usedSites siteId
  unfold nsites at hfits
  cases j with
  | zero =>
      have hone := h.first Nat.one_pos
      rw [prevWid_one]
      exact ⟨⟨by omega, by omega⟩, h.init fun k hk => absurd hk (Nat.not_lt_zero k), by omega⟩
  | succ j =>
      have hapart := h.apart j (Nat.lt_succ_self _)
      rw [hlast] at hapart
      rw [prevWid_succ]
      refine ⟨⟨by omega, by omega⟩, h.init fun k hk => ?_, fun h => nomatch h⟩
      have := hmono k hk
      rw [Nat.add_sub_cancel] at this
      omega

/-- No chain costs less than the entry. -/
theorem column_le (hswid : ∀ k, k + 1 < I.ncells → 0 < I.swid k) (j : Nat) :
    j ≤ I.ncells → ∀ (i : Nat) (a : Nat → Nat), I.Chain j i a → (j = 0 → i = 0) →
      ∃ c, (I.column j i).tcost = some c ∧ c ≤ I.chainCost j a := by
  induction j with
  | zero =>
      intro _ i a _ hi
      rw [hi rfl]
      exact ⟨0, rfl, Nat.zero_le _⟩
  | succ j ihj =>
      intro hj i
      induction i with
      | zero =>
          intro a h _
          have hfirst := h.first j.succ_pos
          have hlast := h.last 0 j.succ_pos
          omega
      | succ i ihi =>
          intro a h _
          have hmono : ∀ k < j + 1, a k ≤ a j := fun k hk =>
            h.le_of_lt hswid hj (Nat.le_of_lt_succ hk) j.lt_succ_self
          -- the last cell is on site `i + 1`, or the chain is one of the entry above
          rcases (h.last j j.lt_succ_self).eq_or_lt with hlast | hlt
          · obtain ⟨husable, hbefore, hzero⟩ := h.before hj hlast fun k hk =>
              h.le_of_lt hswid hj (Nat.le_sub_one_of_lt hk) (by omega)
            obtain ⟨t, ht, hle⟩ := ihj (Nat.le_of_succ_le hj) _ a hbefore hzero
            have hused : (I.column j (usedSites I j i).toNat).tcost.map
                (· + I.cost (i + 1) (j + 1)) = some (t + I.cost (i + 1) (j + 1)) := by rw [ht]; rfl
            have hcost : t + I.cost (i + 1) (j + 1) ≤ I.chainCost (j + 1) a := by
              rw [chainCost_succ, hlast]
              exact Nat.add_le_add_right hle _
            rcases column_succ_cases I j i with ⟨-, -, hnone⟩ | ⟨c, hentry, -, hbest⟩ |
              ⟨c, hentry, -, hc, -⟩
            · rw [hnone husable] at hused
              cases hused
            · exact ⟨c, by rw [hentry], (hbest _ husable hused).trans hcost⟩
            · rw [hused] at hc
              exact ⟨c, by rw [hentry], Option.some.inj hc ▸ hcost⟩
          · have habove : I.Chain (j + 1) i a :=
              { h with last := fun k hk => (hmono k hk).trans (Nat.le_of_lt_succ hlt) }
            obtain ⟨t, ht, hle⟩ := ihi a habove fun h => nomatch h
            rcases column_succ_cases I j i with ⟨-, hnone, -⟩ | ⟨c, hentry, hc, -⟩ |
              ⟨c, hentry, -, -, hbest⟩
            · rw [hnone] at ht
              cases ht
            · rw [ht] at hc
              exact ⟨c, by rw [hentry], Option.some.inj hc ▸ hle⟩
            · exact ⟨c, by rw [hentry], (hbest t ht).le.trans hle⟩

/-! ### The way back -/

/-- What the way back from an entry of cost `c` gives. -/
structure WayBack (I : ShiftCall) (j i c : Nat) (a : Nat → Nat) : Prop where
  chain : I.Chain j i a
  cost : I.chainCost j a = c
  leftmost : ∀ b, I.Chain j i b → I.chainCost j b = c → 0 < j → a (j - 1) ≤ b (j - 1)
  okay : ∀ fuel, i + j < fuel → I.okay fuel (i, j) = true
  place : ∀ fuel posLeft, i + j < fuel → ∀ k,
    I.place fuel (i, j) posLeft k = if k < j then I.sitePos (a k) else posLeft k

theorem column_zero_some {c : Nat} (h : (I.column 0 i).tcost = some c) : i = 0 ∧ c = 0 := by
  cases i with
  | zero => exact ⟨rfl, (Option.some.inj h).symm⟩
  | succ i => cases h

theorem succ_ne_origin (i j : Nat) : (i + 1, j + 1) ≠ (0, 0) := fun h =>
  Nat.succ_ne_zero i (congrArg Prod.fst h)

/-- The step from an entry that is set. -/
theorem okay_succ {fuel : Nat} {before : Nat × Nat}
    (hprev : (I.column (j + 1) (i + 1)).prev = some before) :
    I.okay (fuel + 1) (i + 1, j + 1) = I.okay fuel before := by
  rw [okay, hprev, decide_eq_false (succ_ne_origin i j)]
  rfl

theorem place_succ {fuel : Nat} {before : Nat × Nat} {posLeft : Nat → Int}
    (hprev : (I.column (j + 1) (i + 1)).prev = some before) :
    I.place (fuel + 1) (i + 1, j + 1) posLeft = I.place fuel before
      (if j + 1 ≠ before.2 then Function.update posLeft j (I.sitePos (i + 1)) else posLeft) := by
  rw [place, if_neg (succ_ne_origin i j)]
  simp only [hprev]
  rfl

/-- A skipped site. -/
theorem WayBack.skip {c : Nat} (hswid : ∀ k, k + 1 < I.ncells → 0 < I.swid k)
    (hj : j + 1 ≤ I.ncells) (hprev : (I.column (j + 1) (i + 1)).prev = some (i, j + 1))
    (h : WayBack I (j + 1) i c a) : WayBack I (j + 1) (i + 1) c a where
  chain := h.chain.mono (Nat.le_succ i)
  cost := h.cost
  leftmost := fun b hb hcost _ => by
    have hlast := h.chain.last j j.lt_succ_self
    rcases Nat.lt_or_ge (b j) (i + 1) with hlt | hge
    · refine h.leftmost b { hb with last := fun k hk => ?_ } hcost j.succ_pos
      exact (hb.le_of_lt hswid hj (Nat.le_of_lt_succ hk) j.lt_succ_self).trans
        (Nat.le_of_lt_succ hlt)
    · exact hlast.trans ((Nat.le_succ i).trans hge)
  okay := fun fuel hfuel => by
    obtain ⟨fuel, rfl⟩ := Nat.exists_eq_add_one_of_ne_zero (Nat.ne_of_gt (Nat.zero_lt_of_lt hfuel))
    rw [okay_succ hprev]
    exact h.okay fuel (by omega)
  place := fun fuel posLeft hfuel k => by
    obtain ⟨fuel, rfl⟩ := Nat.exists_eq_add_one_of_ne_zero (Nat.ne_of_gt (Nat.zero_lt_of_lt hfuel))
    rw [place_succ hprev, if_neg (not_not.mpr rfl)]
    exact h.place fuel posLeft (by omega) k

/-- A site on which a cell is put. -/
theorem WayBack.use {c : Nat} (hswid : ∀ k, k + 1 < I.ncells → 0 < I.swid k)
    (hj : j + 1 ≤ I.ncells) (husable : Usable I j i)
    (hprev : (I.column (j + 1) (i + 1)).prev = some ((usedSites I j i).toNat, j))
    (hzero : j = 0 → (usedSites I j i).toNat = 0)
    (hbest : ∀ c', (I.column (j + 1) i).tcost = some c' → c + I.cost (i + 1) (j + 1) < c')
    (h : WayBack I j (usedSites I j i).toNat c a) :
    WayBack I (j + 1) (i + 1) (c + I.cost (i + 1) (j + 1)) (Function.update a j (i + 1)) := by
  have hself : Function.update a j (i + 1) j = i + 1 := Function.update_self _ _ _
  have hold : ∀ k < j, Function.update a j (i + 1) k = a k := fun k hk =>
    Function.update_of_ne (Nat.ne_of_lt hk) _ _
  have hle : (usedSites I j i).toNat ≤ i + 1 := by
    unfold usedSites
    cases j with
    | zero => rw [prevWid_one]; omega
    | succ j => have := hswid j (by omega); rw [prevWid_succ]; omega
  obtain ⟨hnonneg, hroom⟩ := husable
  have hcost : I.chainCost (j + 1) (Function.update a j (i + 1)) =
      c + I.cost (i + 1) (j + 1) := by
    rw [chainCost_succ, chainCost_congr I hold, h.cost, hself]
  exact {
    chain := {
      first := fun _ => by
        cases j with
        | zero =>
            have hi := hzero rfl
            unfold usedSites at hi hnonneg
            rw [prevWid_one] at hi hnonneg
            rw [hself]
            omega
        | succ j => exact (hold 0 j.succ_pos).trans (h.chain.first j.succ_pos)
      apart := fun k hk => by
        rcases (Nat.le_of_lt_succ hk).eq_or_lt with rfl | hlt
        · have hlast := h.chain.last k k.lt_succ_self
          unfold usedSites at hlast hnonneg
          rw [prevWid_succ] at hlast hnonneg
          rw [hself, hold k k.lt_succ_self]
          omega
        · rw [hold (k + 1) hlt, hold k (Nat.lt_of_succ_lt hlt)]
          exact h.chain.apart k hlt
      fits := fun k hk => by
        rcases (Nat.le_of_lt_succ hk).eq_or_lt with rfl | hlt
        · rw [hself]
          unfold siteId at hroom
          unfold nsites
          omega
        · rw [hold k hlt]
          exact h.chain.fits k hlt
      last := fun k hk => by
        rcases (Nat.le_of_lt_succ hk).eq_or_lt with rfl | hlt
        · exact hself.le
        · rw [hold k hlt]
          exact (h.chain.last k hlt).trans hle }
    cost := hcost
    leftmost := fun b hb hb' _ => by
      rw [Nat.add_sub_cancel, hself]
      by_contra hlt
      have hbefore : I.Chain (j + 1) i b := { hb with
        last := fun k hk => (hb.le_of_lt hswid hj (Nat.le_of_lt_succ hk) j.lt_succ_self).trans
          (Nat.le_of_lt_succ (Nat.lt_of_not_le hlt)) }
      obtain ⟨c', hc', hle'⟩ := column_le hswid (j + 1) hj i b hbefore fun h => nomatch h
      have := hbest c' hc'
      omega
    okay := fun fuel hfuel => by
      obtain ⟨fuel, rfl⟩ :=
        Nat.exists_eq_add_one_of_ne_zero (Nat.ne_of_gt (Nat.zero_lt_of_lt hfuel))
      rw [okay_succ hprev]
      exact h.okay fuel (by omega)
    place := fun fuel posLeft hfuel k => by
      obtain ⟨fuel, rfl⟩ :=
        Nat.exists_eq_add_one_of_ne_zero (Nat.ne_of_gt (Nat.zero_lt_of_lt hfuel))
      rw [place_succ hprev, if_pos (Nat.succ_ne_self j), h.place fuel _ (by omega) k]
      rcases Nat.lt_trichotomy k j with hlt | rfl | hgt
      · rw [if_pos hlt, if_pos (hlt.trans j.lt_succ_self), hold k hlt]
      · rw [if_neg (lt_irrefl k), if_pos k.lt_succ_self, Function.update_self, hself]
      · rw [if_neg hgt.not_gt, if_neg (by omega), Function.update_of_ne hgt.ne'] }

/-- The way back from an entry that is set gives a chain of its cost. -/
theorem column_wayBack (hswid : ∀ k, k + 1 < I.ncells → 0 < I.swid k) (j : Nat) :
    j ≤ I.ncells → ∀ i c, (I.column j i).tcost = some c → ∃ a, WayBack I j i c a := by
  induction j with
  | zero =>
      intro _ i c hc
      obtain ⟨rfl, rfl⟩ := column_zero_some hc
      refine ⟨fun _ => 0, ⟨fun h => absurd h (lt_irrefl 0), ?_, ?_, ?_⟩, rfl, ?_, ?_, ?_⟩
      · exact fun k hk => absurd hk (Nat.not_lt_zero _)
      · exact fun k hk => absurd hk (Nat.not_lt_zero k)
      · exact fun k hk => absurd hk (Nat.not_lt_zero k)
      · exact fun b _ _ h => absurd h (lt_irrefl 0)
      · intro fuel hfuel
        obtain ⟨fuel, rfl⟩ := Nat.exists_eq_add_one_of_ne_zero (Nat.ne_of_gt hfuel)
        rfl
      · intro fuel posLeft hfuel k
        obtain ⟨fuel, rfl⟩ := Nat.exists_eq_add_one_of_ne_zero (Nat.ne_of_gt hfuel)
        rfl
  | succ j ihj =>
      intro hj i
      induction i with
      | zero => exact fun c hc => nomatch hc
      | succ i ihi =>
          intro c hc
          rcases column_succ_cases I j i with ⟨hnone, -, -⟩ | ⟨c', hentry, hskip, -⟩ |
            ⟨c', hentry, husable, hused, hbest⟩
          · rw [hnone] at hc
            cases hc
          · rw [hentry] at hc
            obtain rfl := Option.some.inj hc
            obtain ⟨a, ha⟩ := ihi c' hskip
            exact ⟨a, ha.skip hswid hj (by rw [hentry])⟩
          · rw [hentry] at hc
            obtain rfl := Option.some.inj hc
            obtain ⟨t, ht, rfl⟩ := Option.map_eq_some_iff.mp hused
            obtain ⟨a, ha⟩ := ihj (Nat.le_of_succ_le hj) _ t ht
            refine ⟨_, ha.use hswid hj husable (by rw [hentry]) ?_ hbest⟩
            rintro rfl
            exact (column_zero_some ht).1

/-- A way back begins at an entry that is set. -/
theorem tcost_of_okay {fuel : Nat} (h : I.okay fuel (i, j) = true) :
    ∃ c, (I.column j i).tcost = some c := by
  have hprev : (i, j) = (0, 0) ∨ ∃ before, (I.column j i).prev = some before := by
    cases fuel with
    | zero => exact absurd h Bool.false_ne_true
    | succ fuel =>
        rw [okay, Bool.or_eq_true] at h
        refine h.imp of_decide_eq_true fun hback => ?_
        cases hcase : (I.column j i).prev with
        | none =>
            rw [hcase] at hback
            exact absurd hback Bool.false_ne_true
        | some before => exact ⟨before, rfl⟩
  rcases hprev with heq | ⟨before, hprev⟩
  · obtain ⟨rfl, rfl⟩ := Prod.mk.inj heq
    exact ⟨0, rfl⟩
  · cases j with
    | zero => cases i <;> cases hprev
    | succ j =>
        cases i with
        | zero => cases hprev
        | succ i =>
            rcases column_succ_cases I j i with ⟨hnone, -⟩ | ⟨c, hentry, -⟩ | ⟨c, hentry, -⟩
            · rw [hnone] at hprev
              cases hprev
            · exact ⟨c, by rw [hentry]⟩
            · exact ⟨c, by rw [hentry]⟩

end ShiftCall

end OpenRoad.Dpl
