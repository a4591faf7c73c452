import OpenRoad.DplShift
import Mathlib.Algebra.Order.Ring.Int
import Mathlib.Algebra.Order.BigOperators.Group.Finset
import Mathlib.Algebra.GroupWithZero.Divisibility
import Mathlib.Algebra.Ring.Divisibility.Basic

/-!
When a shift is the best one. The tables let the first cell stand on the first site only, so that
the positions found are the best of those that begin there.
-/

namespace OpenRoad.Dpl

namespace ShiftCall

variable (I : ShiftCall)

/-! ### Arrangements -/

/-- Widths and padding are counted in whole sites. -/
structure WholeSites : Prop where
  spacing : 0 < I.siteSpacing
  width : ∀ k < I.ncells, 0 < I.width k ∧ I.siteSpacing ∣ I.width k
  padding : I.siteSpacing ∣ I.paddingSiteWidth

/-- The cells on sites, in their order and with their spacing, between the left limit and some
coordinate. -/
structure Fits (right : Int) (p : Nat → Int) : Prop where
  aligned : ∀ k < I.ncells, ∃ i, p k = I.originX + i * I.siteSpacing
  left : ∀ k < I.ncells, I.leftLimit ≤ p k
  right : ∀ k < I.ncells, p k + I.width k ≤ right
  apart : ∀ k, k + 1 < I.ncells → p k + I.width k + I.cellSpacing k ≤ p (k + 1)

/-- How far the cells are from their targets. -/
def distance (p : Nat → Int) : Nat := ∑ k ∈ Finset.range I.ncells, (p k - I.targetLeft k).natAbs

/-- If the cells fit between the limits, the result places them so, as near to their targets as can
be. -/
def Optimal (result : Option (Nat → Int)) : Prop :=
  (∃ p, I.Fits I.rightLimit p) →
    ∃ p, result = some p ∧ I.Fits I.rightLimit p ∧
      ∀ q, I.Fits I.rightLimit q → I.distance p ≤ I.distance q

/-- The first cell is on the first site. -/
def BeginsFirst (p : Nat → Int) : Prop :=
  0 < I.ncells → p 0 = I.originX + I.i0 * I.siteSpacing

/-- The end of the last site. -/
def lastEnd : Int := I.originX + (I.i1 + 1) * I.siteSpacing

/-- Some nearest arrangement begins on the first site, and nothing that begins there is nearer, not
even up to the end of the last site; where there are no cells, there are no sites. -/
def NearestBeginsFirst : Prop :=
  (∃ p, I.Fits I.rightLimit p) →
    (I.ncells = 0 → I.nsites = 0) ∧
    ∃ p, I.Fits I.rightLimit p ∧ I.BeginsFirst p ∧
      (∀ q, I.Fits I.rightLimit q → I.distance p ≤ I.distance q) ∧
      ∀ q, I.Fits I.lastEnd q → I.BeginsFirst q → I.distance p ≤ I.distance q

variable {I}

/-! ### Sites between the limits -/

/-- Division that rounds towards zero is between two multiples, on one side or the other. -/
theorem tdiv_between {d s : Int} (hs : 0 < s) :
    (d.tdiv s * s ≤ d ∧ d < (d.tdiv s + 1) * s) ∨
      ((d.tdiv s - 1) * s < d ∧ d ≤ d.tdiv s * s) := by
  rcases le_or_gt 0 d with hd | hd
  · rw [Int.tdiv_eq_ediv_of_nonneg hd]
    exact Or.inl ⟨Int.ediv_mul_le d hs.ne', Int.lt_ediv_add_one_mul_self d hs⟩
  · have hneg : d.tdiv s = -((-d) / s) := by
      rw [← Int.tdiv_eq_ediv_of_nonneg (by omega), Int.neg_tdiv, neg_neg]
    have hle := Int.ediv_mul_le (-d) hs.ne'
    have hlt := Int.lt_ediv_add_one_mul_self (-d) hs
    rw [hneg]
    refine Or.inr ⟨?_, ?_⟩
    · rw [show -(-d / s) - 1 = -(-d / s + 1) by omega, neg_mul]
      omega
    · rw [neg_mul]
      omega

/-- The first site is the first one that is not to the left of the left limit. -/
theorem i0_le_iff (h : 0 < I.siteSpacing) (i : Int) :
    I.leftLimit ≤ I.originX + i * I.siteSpacing ↔ I.i0 ≤ i := by
  have hmul : ∀ {a b : Int}, a ≤ b → a * I.siteSpacing ≤ b * I.siteSpacing := fun hab =>
    mul_le_mul_of_nonneg_right hab h.le
  unfold i0
  dsimp only
  have hbetween := @tdiv_between (I.leftLimit - I.originX) _ h
  set q := (I.leftLimit - I.originX).tdiv I.siteSpacing
  split_ifs with hlt
  · obtain ⟨-, hup⟩ := hbetween.resolve_right fun h' => by omega
    refine ⟨fun hle => Int.add_one_le_iff.mpr ?_, fun hle => ?_⟩
    · exact lt_of_mul_lt_mul_right (by omega : q * I.siteSpacing < i * I.siteSpacing) h.le
    · have := hmul hle
      omega
  · refine ⟨fun hle => ?_, fun hle => ?_⟩
    · by_contra hiq
      have hpred := hmul (show i ≤ q - 1 by omega)
      have hstep : (q - 1) * I.siteSpacing = q * I.siteSpacing - I.siteSpacing := by
        rw [sub_mul, one_mul]
      have hstep' : (q + 1) * I.siteSpacing = q * I.siteSpacing + I.siteSpacing := by
        rw [add_mul, one_mul]
      omega
    · have := hmul hle
      omega

/-- The last site reaches at least as far as whole sites do before the right limit. -/
theorem le_i1 (h : 0 < I.siteSpacing) {i : Int}
    (hi : I.originX + i * I.siteSpacing ≤ I.rightLimit) : i ≤ I.i1 + 1 := by
  have hbetween := @tdiv_between (I.rightLimit - I.originX) _ h
  unfold i1
  dsimp only
  set q := (I.rightLimit - I.originX).tdiv I.siteSpacing
  have hq : i ≤ q := by
    rcases hbetween with ⟨-, hup⟩ | ⟨-, hup⟩
    · have hlt : i < q + 1 := lt_of_mul_lt_mul_right
        (by omega : i * I.siteSpacing < (q + 1) * I.siteSpacing) h.le
      omega
    · exact le_of_mul_le_mul_right (by omega : i * I.siteSpacing ≤ q * I.siteSpacing) h
  split_ifs <;> omega

/-! ### Widths in sites -/

theorem cellSpacing_nonneg (k : Nat) : 0 ≤ I.cellSpacing k := by
  unfold cellSpacing
  split_ifs
  · exact le_max_left _ _
  · exact le_rfl

theorem WholeSites.cellSpacing_dvd (h : I.WholeSites) (k : Nat) :
    I.siteSpacing ∣ I.cellSpacing k := by
  unfold cellSpacing
  split_ifs
  · rcases max_choice 0 (I.padRight k * I.paddingSiteWidth + I.padLeft (k + 1) * I.paddingSiteWidth)
      with heq | heq
    · rw [heq]
      exact dvd_zero _
    · rw [heq]
      exact dvd_add (Dvd.dvd.mul_left h.padding _) (Dvd.dvd.mul_left h.padding _)
  · exact dvd_zero _

/-- The width of a cell, with the spacing to the next one if there is one. -/
def span (I : ShiftCall) (k : Nat) : Int :=
  if k + 1 = I.ncells then I.width k else I.width k + I.cellSpacing k

theorem width_le_span (k : Nat) : I.width k ≤ I.span k := by
  unfold span
  have := I.cellSpacing_nonneg k
  split_ifs <;> omega

theorem WholeSites.swid_mul (h : I.WholeSites) {k : Nat} (hk : k < I.ncells) :
    I.swid k * I.siteSpacing = I.span k := by
  refine Int.tdiv_mul_cancel ?_
  split_ifs
  · exact (h.width k hk).2
  · exact dvd_add (h.width k hk).2 (h.cellSpacing_dvd k)

theorem WholeSites.swid_pos (h : I.WholeSites) {k : Nat} (hk : k < I.ncells) : 0 < I.swid k := by
  have hspan := (h.width k hk).1.trans_le (width_le_span k)
  rw [← h.swid_mul hk] at hspan
  exact pos_of_mul_pos_left hspan h.spacing.le

theorem Fits.span_le {right : Int} {p : Nat → Int} (hp : I.Fits right p) {k : Nat}
    (hk : k + 1 < I.ncells) : p k + I.span k ≤ p (k + 1) := by
  unfold span
  rw [if_neg (Nat.ne_of_lt hk)]
  have := hp.apart k hk
  omega

/-- A cell with its span ends where the last one ends, at the latest. -/
theorem Fits.span_right (h : I.WholeSites) {right : Int} {p : Nat → Int} (hp : I.Fits right p)
    {k : Nat} (hk : k < I.ncells) : p k + I.span k ≤ right := by
  by_cases hlast : k + 1 = I.ncells
  · unfold span
    rw [if_pos hlast]
    exact hp.right k hk
  · have hk' : k + 1 < I.ncells := by omega
    have hstep := hp.span_le hk'
    have hnext := hp.right (k + 1) hk'
    have hwidth := (h.width (k + 1) hk').1
    omega

/-- Only the last cell has to be looked at for another right limit. -/
theorem Fits.of_last (h : I.WholeSites) {right right' : Int} {p : Nat → Int}
    (hp : I.Fits right p)
    (hlast : 0 < I.ncells → p (I.ncells - 1) + I.width (I.ncells - 1) ≤ right') :
    I.Fits right' p where
  aligned := hp.aligned
  left := hp.left
  apart := hp.apart
  right := fun k hk => by
    have hmono : ∀ m, k ≤ m → m < I.ncells → p k + I.width k ≤ p m + I.width m := by
      intro m hkm
      induction m, hkm using Nat.le_induction with
      | base => exact fun _ => le_rfl
      | succ m hkm ih =>
          intro hm
          have hprev := ih (Nat.lt_of_succ_lt hm)
          have hstep := hp.span_le hm
          have hspan := @width_le_span I m
          have hwidth := (h.width (m + 1) hm).1
          omega
    exact (hmono (I.ncells - 1) (by omega) (by omega)).trans (hlast (Nat.zero_lt_of_lt hk))

theorem Fits.to_lastEnd (h : I.WholeSites) {p : Nat → Int} (hp : I.Fits I.rightLimit p) :
    I.Fits I.lastEnd p := by
  refine hp.of_last h fun hn => ?_
  have hk : I.ncells - 1 < I.ncells := Nat.sub_one_lt hn.ne'
  obtain ⟨i, hi⟩ := hp.aligned _ hk
  obtain ⟨w, hw⟩ := (h.width _ hk).2
  have hright := hp.right _ hk
  rw [hi, hw, mul_comm I.siteSpacing w, add_assoc, ← add_mul] at hright
  have hle := mul_le_mul_of_nonneg_right (le_i1 h.spacing hright) h.spacing.le
  rw [hi, hw, mul_comm I.siteSpacing, add_assoc, ← add_mul]
  exact add_le_add_right hle _

/-! ### Arrangements and chains -/

theorem sitePos_eq (i : Nat) : I.sitePos i = I.originX + (I.i0 + i - 1) * I.siteSpacing := rfl

/-- An arrangement that begins on the first site is a chain. -/
theorem Fits.chain (h : I.WholeSites) {p : Nat → Int} (hp : I.Fits I.lastEnd p)
    (hfirst : I.BeginsFirst p) :
    ∃ a, I.Chain I.ncells I.nsites.toNat a ∧ ∀ k < I.ncells, p k = I.sitePos (a k) := by
  have hsite : ∀ k, ∃ i : Nat, k < I.ncells → 1 ≤ i ∧ p k = I.sitePos i := fun k => by
    by_cases hk : k < I.ncells
    · obtain ⟨i, hi⟩ := hp.aligned k hk
      have hleft := hp.left k hk
      rw [hi, i0_le_iff h.spacing] at hleft
      refine ⟨(i - I.i0 + 1).toNat, fun _ => ⟨by omega, ?_⟩⟩
      rw [hi, sitePos_eq, show I.i0 + (i - I.i0 + 1).toNat - 1 = i by omega]
    · exact ⟨0, fun h => absurd h hk⟩
  choose a ha using hsite
  have hfits : ∀ k < I.ncells, a k + I.swid k - 1 ≤ I.nsites := fun k hk => by
    have hright := hp.span_right h hk
    rw [(ha k hk).2, sitePos_eq, ← h.swid_mul hk, lastEnd, add_assoc, ← add_mul] at hright
    have := le_of_mul_le_mul_right (Int.add_le_add_iff_left _ |>.mp hright) h.spacing
    unfold nsites
    omega
  refine ⟨a, ⟨fun hn => ?_, fun k hk => ?_, hfits, fun k hk => ?_⟩, fun k hk => (ha k hk).2⟩
  · have hpos := hfirst hn
    rw [(ha 0 hn).2, sitePos_eq] at hpos
    have := mul_right_cancel₀ h.spacing.ne' (add_left_cancel hpos)
    omega
  · have hk' := Nat.lt_of_succ_lt hk
    have hspan := hp.span_le hk
    rw [(ha k hk').2, (ha (k + 1) hk).2, sitePos_eq, sitePos_eq, ← h.swid_mul hk', add_assoc,
      ← add_mul] at hspan
    have := le_of_mul_le_mul_right (Int.add_le_add_iff_left _ |>.mp hspan) h.spacing
    omega
  · have hfit := hfits k hk
    have hpos := h.swid_pos hk
    omega

theorem Chain.one_le (hswid : ∀ k, k + 1 < I.ncells → 0 < I.swid k) {i : Nat} {a : Nat → Nat}
    (ha : I.Chain I.ncells i a) {k : Nat} (hk : k < I.ncells) : 1 ≤ a k :=
  (ha.first (Nat.zero_lt_of_lt hk)).ge.trans (ha.le_of_lt hswid le_rfl (Nat.zero_le k) hk)

/-- A chain is an arrangement that begins on the first site. -/
theorem Chain.arrangement (h : I.WholeSites) {i : Nat} {a : Nat → Nat}
    (ha : I.Chain I.ncells i a) {p : Nat → Int} (hp : ∀ k < I.ncells, p k = I.sitePos (a k)) :
    I.Fits I.lastEnd p ∧ I.BeginsFirst p := by
  have hspan : ∀ k, (hk : k < I.ncells) →
      p k + I.span k = I.originX + (I.i0 + a k - 1 + I.swid k) * I.siteSpacing := fun k hk => by
    rw [hp k hk, sitePos_eq, ← h.swid_mul hk, add_assoc, ← add_mul]
  refine ⟨⟨fun k hk => ⟨_, hp k hk⟩, fun k hk => ?_, fun k hk => ?_, fun k hk => ?_⟩, fun hn => ?_⟩
  · have hone := ha.one_le (fun k hk => h.swid_pos (Nat.lt_of_succ_lt hk)) hk
    rw [hp k hk, sitePos_eq, i0_le_iff h.spacing]
    omega
  · have hfits := ha.fits k hk
    unfold nsites at hfits
    have hle : I.i0 + a k - 1 + I.swid k ≤ I.i1 + 1 := by omega
    have hmul := mul_le_mul_of_nonneg_right hle h.spacing.le
    have := @width_le_span I k
    have := hspan k hk
    unfold lastEnd
    omega
  · have hk' := Nat.lt_of_succ_lt hk
    have hle : I.i0 + a k - 1 + I.swid k ≤ I.i0 + a (k + 1) - 1 := by
      have := ha.apart k hk
      omega
    have hmul := mul_le_mul_of_nonneg_right hle h.spacing.le
    have hthis := hspan k hk'
    have hnext := hp (k + 1) hk
    rw [sitePos_eq] at hnext
    unfold span at hthis
    rw [if_neg (Nat.ne_of_lt hk)] at hthis
    omega
  · rw [hp 0 hn, sitePos_eq, ha.first hn]
    congr 2
    omega

/-! ### Sites that are valid for a cell -/

theorem Chain.siteL_le {i : Nat} {a : Nat → Nat} (ha : I.Chain I.ncells i a) :
    ∀ k < I.ncells, I.siteL k ≤ I.siteId (a k) := by
  intro k
  induction k with
  | zero =>
      intro hn
      rw [ha.first hn]
      unfold siteL siteId
      omega
  | succ k ih =>
      intro hk
      have hprev := ih (Nat.lt_of_succ_lt hk)
      have hapart := ha.apart k hk
      unfold siteL
      unfold siteId at *
      omega

theorem Chain.le_siteREnd {i : Nat} {a : Nat → Nat} (ha : I.Chain I.ncells i a) :
    ∀ m k, k + m + 1 = I.ncells → I.siteId (a k) ≤ I.siteREnd (m + 1) := by
  intro m
  induction m with
  | zero =>
      intro k hk
      have hfits := ha.fits k (by omega)
      unfold siteREnd siteREnd siteId
      unfold nsites at hfits
      rw [show I.ncells - 1 - 0 = k by omega]
      omega
  | succ m ih =>
      intro k hk
      have hnext := ih (k + 1) (by omega)
      have hapart := ha.apart k (by omega)
      rw [siteREnd, show I.ncells - 1 - (m + 1) = k by omega]
      unfold siteId at *
      omega

theorem Chain.le_siteR {i : Nat} {a : Nat → Nat} (ha : I.Chain I.ncells i a) {k : Nat}
    (hk : k < I.ncells) : I.siteId (a k) ≤ I.siteR k := by
  have hle := ha.le_siteREnd (I.ncells - k - 1) k (by omega)
  rwa [Nat.sub_add_cancel (by omega)] at hle

/-- The tables hold the distances of a chain. -/
theorem Chain.cost_eq {i : Nat} {a : Nat → Nat} (ha : I.Chain I.ncells i a) {p : Nat → Int}
    (hp : ∀ k < I.ncells, p k = I.sitePos (a k)) : I.chainCost I.ncells a = I.distance p := by
  refine Finset.sum_congr rfl fun k hk => ?_
  have hk := Finset.mem_range.mp hk
  have hl := ha.siteL_le k hk
  have hr := ha.le_siteR hk
  unfold cost
  rw [Nat.add_sub_cancel, if_neg (by omega), hp k hk]

theorem siteL_eq (k : Nat) : I.siteL k = I.i0 + ∑ m ∈ Finset.range k, I.swid m := by
  induction k with
  | zero => exact (Int.add_zero _).symm
  | succ k ih => rw [siteL, ih, Finset.sum_range_succ, add_assoc]

/-- The checks before the tables pass when there is a chain. -/
theorem Chain.rsites_le {i : Nat} {a : Nat → Nat} (ha : I.Chain I.ncells i a)
    (hzero : I.ncells = 0 → I.nsites = 0) : I.rsites ≤ I.nsites := by
  have hsum := @siteL_eq I I.ncells
  change _ = I.i0 + I.rsites at hsum
  rcases Nat.eq_zero_or_pos I.ncells with hn | hn
  · have := hzero hn
    rw [hn, siteL] at hsum
    omega
  · obtain ⟨n, hn'⟩ := Nat.exists_eq_add_one_of_ne_zero hn.ne'
    have hl := ha.siteL_le n (by omega)
    have hfits := ha.fits n (by omega)
    rw [hn', siteL] at hsum
    unfold siteId at hl
    omega

/-- The result, once the entry of all sites and cells is set. -/
theorem shift_eq_some {c : Nat} {a : Nat → Nat}
    (hzero : I.ncells = 0 → I.nsites = 0)
    (ha : WayBack I I.ncells I.nsites.toNat c a) (posLeft : Nat → Int) :
    ∃ p, I.shift posLeft = some p ∧ ∀ k < I.ncells, p k = I.sitePos (a k) := by
  have hchecks : ¬∃ k ∈ Finset.range I.ncells, I.siteR k < I.siteL k := by
    rintro ⟨k, hk, hlt⟩
    have hk := Finset.mem_range.mp hk
    exact absurd ((ha.chain.siteL_le k hk).trans (ha.chain.le_siteR hk)) (not_le.mpr hlt)
  refine ⟨I.place (I.nsites.toNat + I.ncells + 1) (I.nsites.toNat, I.ncells) posLeft, ?_,
    fun k hk => ?_⟩
  · unfold shift
    rw [if_neg (not_lt.mpr (ha.chain.rsites_le hzero)), if_neg hchecks]
    exact if_pos (ha.okay _ (Nat.lt_succ_self _))
  · rw [ha.place _ posLeft (Nat.lt_succ_self _) k, if_pos hk]

/-- Where the result is true the last entry is set. -/
theorem tcost_of_shift {posLeft p : Nat → Int} (h : I.shift posLeft = some p) :
    (∃ c, (I.column I.ncells I.nsites.toNat).tcost = some c) ∧ I.rsites ≤ I.nsites := by
  unfold shift at h
  dsimp only at h
  split_ifs at h with hsites hcell hokay
  exact ⟨tcost_of_okay hokay, not_lt.mp hsites⟩

/-! ### The nearest arrangement -/

/-- A shift gives the nearest arrangement just when one begins on the first site. -/
theorem shift_optimal_iff (h : I.WholeSites) (posLeft : Nat → Int) :
    I.Optimal (I.shift posLeft) ↔ I.NearestBeginsFirst := by
  have hswid : ∀ k, k + 1 < I.ncells → 0 < I.swid k := fun k hk =>
    h.swid_pos (Nat.lt_of_succ_lt hk)
  constructor
  · intro hoptimal hfit
    obtain ⟨p, hshift, hp, hbest⟩ := hoptimal hfit
    obtain ⟨⟨c, hc⟩, hsites⟩ := tcost_of_shift hshift
    have hzero : I.ncells = 0 → I.nsites = 0 := fun hn => by
      rw [hn] at hc
      have htop := (column_zero_some hc).1
      unfold rsites at hsites
      rw [hn, Finset.sum_range_zero] at hsites
      omega
    obtain ⟨a, ha⟩ := column_wayBack hswid _ le_rfl _ c hc
    obtain ⟨p', hshift', hpos⟩ := shift_eq_some hzero ha posLeft
    obtain rfl := Option.some.inj (hshift.symm.trans hshift')
    refine ⟨hzero, p, hp, (ha.chain.arrangement h hpos).2, hbest, fun q hq hfirst => ?_⟩
    obtain ⟨b, hb, hqpos⟩ := hq.chain h hfirst
    obtain ⟨c', hc', hle⟩ := column_le hswid _ le_rfl _ b hb fun hn => by rw [hzero hn]; rfl
    rw [← ha.chain.cost_eq hpos, ← hb.cost_eq hqpos, ha.cost]
    rw [hc] at hc'
    exact Option.some.inj hc' ▸ hle
  · intro hnearest hfit
    obtain ⟨hzero, p, hp, hfirst, hbest, hlast⟩ := hnearest hfit
    obtain ⟨b, hb, hbpos⟩ := (hp.to_lastEnd h).chain h hfirst
    obtain ⟨c, hc, hle⟩ := column_le hswid _ le_rfl _ b hb fun hn => by rw [hzero hn]; rfl
    obtain ⟨a, ha⟩ := column_wayBack hswid _ le_rfl _ c hc
    obtain ⟨q, hshift, hqpos⟩ := shift_eq_some hzero ha posLeft
    obtain ⟨hq, hqfirst⟩ := ha.chain.arrangement h hqpos
    have hqcost := ha.chain.cost_eq hqpos
    have hpcost := hb.cost_eq hbpos
    -- the result costs no more than the nearest arrangement, and no less, as it begins there too
    have hqp : I.distance q ≤ I.distance p := by rwa [← hqcost, ha.cost, ← hpcost]
    have hpq := hlast q hq hqfirst
    refine ⟨q, hshift, hq.of_last h fun hn => ?_, fun q' hq' => hqp.trans (hbest q' hq')⟩
    have hk : I.ncells - 1 < I.ncells := Nat.sub_one_lt hn.ne'
    have hleft := ha.leftmost b hb (by rw [hpcost, ← ha.cost, hqcost]; exact le_antisymm hpq hqp) hn
    have hright := hp.right _ hk
    have hmul : I.sitePos (a (I.ncells - 1)) ≤ I.sitePos (b (I.ncells - 1)) := by
      rw [sitePos_eq, sitePos_eq]
      exact add_le_add_right (mul_le_mul_of_nonneg_right (by omega) h.spacing.le) _
    rw [hbpos _ hk] at hright
    rw [hqpos _ hk]
    omega

/-! ### One cell on three sites -/

/-- A cell of one site, between limits three sites apart. -/
def oneCell (target : Int) : ShiftCall where
  originX := 0
  siteSpacing := 10
  siteWidth := 10
  usePadding := false
  paddingSiteWidth := 10
  ncells := 1
  width := fun _ => 10
  padLeft := fun _ => 0
  padRight := fun _ => 0
  targetLeft := fun _ => target
  leftLimit := 0
  rightLimit := 30

theorem oneCell_wholeSites (target : Int) : (oneCell target).WholeSites :=
  ⟨show (0 : Int) < 10 by decide, fun _ _ => ⟨show (0 : Int) < 10 by decide, dvd_rfl⟩, dvd_rfl⟩

theorem oneCell_fits (target : Int) {x : Int} (hx : ∃ i, x = i * 10) (hlo : 0 ≤ x) (hhi : x ≤ 20) :
    (oneCell target).Fits 30 fun _ => x := by
  refine ⟨fun _ _ => ?_, fun _ _ => hlo, fun _ _ => ?_,
    fun k (hk : k + 1 < 1) => absurd hk (by omega)⟩
  · obtain ⟨i, hi⟩ := hx
    exact ⟨i, hi.trans (Int.zero_add _).symm⟩
  · show x + 10 ≤ 30
    omega

/-- A target at the first site is met. -/
theorem oneCell_optimal :
    (oneCell 0).Optimal ((oneCell 0).shift fun _ => 0) := by
  refine (shift_optimal_iff (oneCell_wholeSites 0) _).mpr fun _ => ⟨fun h => absurd h (by decide),
    fun _ => 0, oneCell_fits 0 ⟨0, rfl⟩ le_rfl (by decide), fun _ => rfl, ?_, ?_⟩
  · exact fun q _ => Nat.zero_le _
  · exact fun q _ _ => Nat.zero_le _

/-- A target at the last site is not: the cell stays on the first one. -/
theorem not_oneCell_optimal : ¬(oneCell 20).Optimal ((oneCell 20).shift fun _ => 0) := by
  intro h
  obtain ⟨p, hp, -, hbest⟩ := h ⟨_, oneCell_fits 20 ⟨0, rfl⟩ le_rfl (by decide)⟩
  have hle := hbest _ (oneCell_fits 20 ⟨2, rfl⟩ (by decide) le_rfl)
  have hpos : p 0 = 0 := by
    have hshift : ((oneCell 20).shift fun _ => 0).map (fun p => p 0) = some 0 := by decide
    rw [hp] at hshift
    exact Option.some.inj hshift
  unfold distance at hle
  rw [show (oneCell 20).ncells = 1 from rfl, Finset.sum_range_one, Finset.sum_range_one, hpos] at hle
  exact absurd hle (by decide)

end ShiftCall

end OpenRoad.Dpl
