import OpenRoad.MplAnnealing
import Mathlib.Algebra.Order.Field.Basic
import Mathlib.Data.Finset.Insert
import Mathlib.Tactic.Ring

/-!
The wirelength of the annealer beside the documented one. A net to pins that are not placed yet is as
long as the way to the nearest boundary of the die that is free; the source takes the distance to the
bottom for the one to the right.
-/

namespace OpenRoad.Mpl

namespace Rect

def moveHor (r : Rect) (dist : ℚ) : Rect := { r with lx := r.lx + dist, ux := r.ux + dist }

def moveVer (r : Rect) (dist : ℚ) : Rect := { r with ly := r.ly + dist, uy := r.uy + dist }

end Rect

namespace Setup

/-- `setDieArea`: the die as seen from the outline -/
def setDieArea (P : Setup) (dieArea : Rect) : Setup :=
  { P with dieArea := (dieArea.moveHor (-P.outline.lx)).moveVer (-P.outline.ly) }

def setBlockedBoundariesForIOs (P : Setup) (blockedBoundaries : Finset Boundary) : Setup :=
  { P with
    leftIsBlocked := P.leftIsBlocked || .L ∈ blockedBoundaries
    rightIsBlocked := P.rightIsBlocked || .R ∈ blockedBoundaries
    bottomIsBlocked := P.bottomIsBlocked || .B ∈ blockedBoundaries
    topIsBlocked := P.topIsBlocked || .T ∈ blockedBoundaries }

/-- The setup of an annealer, as its constructor makes it. -/
def annealer (P : Setup) (die : Rect) (blocked : Finset Boundary) (nets : List BundledNet) : Setup :=
  let fresh := { P with
    leftIsBlocked := false, rightIsBlocked := false, bottomIsBlocked := false, topIsBlocked := false
    nets }
  (fresh.setDieArea die).setBlockedBoundariesForIOs blocked

end Setup

open Macro SimulatedAnnealingCore

/-! ### The documented wirelength -/

section Documented

variable {T : Type} [Macro T] (outline die : Rect) (blocked : Finset Boundary)

/-- The boundaries of the die with their distances from the pin of a macro in the outline. -/
def boundaryDistances (m : T) : List (Boundary × ℚ) :=
  [(.L, |getPinX m + outline.lx - die.lx|), (.R, |getPinX m + outline.lx - die.ux|),
    (.B, |getPinY m + outline.ly - die.ly|), (.T, |getPinY m + outline.ly - die.uy|)]

/-- The distance to the nearest boundary that is not blocked, or half the perimeter. -/
def nearestBoundary (m : T) : ℚ :=
  ((boundaryDistances outline die m).filterMap fun side =>
    if side.1 ∈ blocked then none else some side.2).min?.getD (die.getPerimeter / 2)

/-- The net goes from a macro inside the outline to pins that may be placed at any boundary. -/
def IsUnconstrained (P : Setup) (source target : T) : Prop :=
  isClusterOfUnplacedIOPins target = true ∧ isOutsideTheOutline P source = false ∧
    (getCluster target).map Cluster.constraintBoundary = some .NONE

instance (P : Setup) (source target : T) : Decidable (IsUnconstrained P source target) :=
  inferInstanceAs (Decidable (_ ∧ _))

/-- How long a net is, whatever its weight. The nets that the documentation leaves open are as long as
the source has them. -/
def documentedLength (P : Setup) (source target : T) : ℚ :=
  if IsUnconstrained P source target then nearestBoundary P.outline die blocked source
  else if isClusterOfUnplacedIOPins target then boundaryDist P source target
  else |getPinX target - getPinX source| + |getPinY target - getPinY source|

/-- The weighted mean of the lengths of the nets, for an outline of half perimeter one. -/
def documentedWirelength (P : Setup) (macros : Nat → T) : ℚ :=
  (P.nets.map fun net =>
      net.weight * documentedLength die blocked P (macros net.source) (macros net.target)).sum /
    (P.nets.map BundledNet.weight).sum / (P.outline.getHeight + P.outline.getWidth)

/-- The nearest free boundary is found: it is within half the perimeter, and when the bottom and the
right boundary are free, the right one is not alone the nearest. -/
structure FindsNearest (m : T) : Prop where
  reach : nearestBoundary outline die blocked m ≤ die.getPerimeter / 2
  right : .B ∉ blocked → .R ∉ blocked →
    die.getPerimeter / 2 ≤ |getPinX m + outline.lx - die.ux| ∨
      ∃ side ∈ boundaryDistances outline die m, side.1 ≠ .R ∧ side.1 ∉ blocked ∧
        side.2 ≤ |getPinX m + outline.lx - die.ux|

end Documented

/-! ### One net -/

theorem min_eq_nearest_iff (left right bottom top : Bool) (l r b t most : ℚ) :
    min (min (if left then most else l) (if bottom then (if right then most else r) else b))
        (min most (if top then most else t)) =
      (([(left, l), (right, r), (bottom, b), (top, t)].filterMap fun side : Bool × ℚ =>
        if side.1 then none else some side.2).min?).getD most ↔
    (([(left, l), (right, r), (bottom, b), (top, t)].filterMap fun side : Bool × ℚ =>
        if side.1 then none else some side.2).min?).getD most ≤ most ∧
      (bottom = false → right = false →
        most ≤ r ∨ left = false ∧ l ≤ r ∨ b ≤ r ∨ top = false ∧ t ≤ r) := by
  cases left <;> cases right <;> cases bottom <;> cases top <;> simp [List.min?] <;> grind

section Net

variable {T : Type} [Macro T] {P : Setup} {die : Rect} {blocked : Finset Boundary}

/-- What the constructor of the annealer sets. -/
structure HasDie (P : Setup) (die : Rect) (blocked : Finset Boundary) : Prop where
  dieArea : P.dieArea = (die.moveHor (-P.outline.lx)).moveVer (-P.outline.ly)
  left : P.leftIsBlocked = decide (.L ∈ blocked)
  right : P.rightIsBlocked = decide (.R ∈ blocked)
  bottom : P.bottomIsBlocked = decide (.B ∈ blocked)
  top : P.topIsBlocked = decide (.T ∈ blocked)

theorem nearestBoundary_eq (outline : Rect) (m : T) :
    nearestBoundary outline die blocked m =
      (([(decide (.L ∈ blocked), |getPinX m + outline.lx - die.lx|),
        (decide (.R ∈ blocked), |getPinX m + outline.lx - die.ux|),
        (decide (.B ∈ blocked), |getPinY m + outline.ly - die.ly|),
        (decide (.T ∈ blocked), |getPinY m + outline.ly - die.uy|)].filterMap
          fun side : Bool × ℚ => if side.1 then none else some side.2).min?).getD
        (die.getPerimeter / 2) := by
  unfold nearestBoundary boundaryDistances
  simp only [List.filterMap_cons, List.filterMap_nil, decide_eq_true_eq]

theorem boundaryDist_eq_iff (h : HasDie P die blocked) {source target : T}
    (hopen : IsUnconstrained P source target) :
    boundaryDist P source target = nearestBoundary P.outline die blocked source ↔
      FindsNearest P.outline die blocked source := by
  obtain ⟨-, hinside, hnone⟩ := hopen
  have hshift : ∀ a o d : ℚ, |a - (d + -o)| = |a + o - d| := fun a o d => by
    congr 1
    ring
  have hperimeter : P.dieArea.getPerimeter = die.getPerimeter := by
    rw [h.dieArea]
    simp only [Rect.getPerimeter, Rect.getWidth, Rect.getHeight, Rect.moveHor, Rect.moveVer]
    ring
  have hdist : boundaryDist P source target =
      min (min (if decide (.L ∈ blocked) then die.getPerimeter / 2
          else |getPinX source + P.outline.lx - die.lx|)
        (if decide (.B ∈ blocked) then
          (if decide (.R ∈ blocked) then die.getPerimeter / 2
            else |getPinX source + P.outline.lx - die.ux|)
          else |getPinY source + P.outline.ly - die.ly|))
        (min (die.getPerimeter / 2)
          (if decide (.T ∈ blocked) then die.getPerimeter / 2
            else |getPinY source + P.outline.ly - die.uy|)) := by
    unfold boundaryDist
    rw [hinside, hnone, hperimeter, h.left, h.right, h.bottom, h.top, h.dieArea]
    simp only [Rect.moveHor, Rect.moveVer, hshift]
    rfl
  rw [hdist, nearestBoundary_eq, min_eq_nearest_iff]
  constructor
  · rintro ⟨hreach, hright⟩
    refine ⟨(nearestBoundary_eq P.outline source).le.trans hreach, fun hb hr => ?_⟩
    rcases hright (decide_eq_false hb) (decide_eq_false hr) with hfar | hl | hbottom | ht
    · exact Or.inl hfar
    · exact Or.inr ⟨_, List.mem_cons_self, by simp, of_decide_eq_false hl.1, hl.2⟩
    · exact Or.inr ⟨_, List.mem_of_getElem? (i := 2) rfl, by simp, hb, hbottom⟩
    · exact Or.inr ⟨_, List.mem_of_getElem? (i := 3) rfl, by simp, of_decide_eq_false ht.1, ht.2⟩
  · rintro ⟨hreach, hright⟩
    refine ⟨(nearestBoundary_eq P.outline source).ge.trans hreach, fun hb hr => ?_⟩
    rcases hright (of_decide_eq_false hb) (of_decide_eq_false hr) with hfar | ⟨side, hside, hne, hfree, hle⟩
    · exact Or.inl hfar
    · simp only [boundaryDistances, List.mem_cons, List.not_mem_nil, or_false] at hside
      rcases hside with rfl | rfl | rfl | rfl
      · exact Or.inr (Or.inl ⟨decide_eq_false hfree, hle⟩)
      · exact absurd rfl hne
      · exact Or.inr (Or.inr (Or.inl hle))
      · exact Or.inr (Or.inr (Or.inr ⟨decide_eq_false hfree, hle⟩))

/-- How long the source has a net. -/
def netLength (P : Setup) (source target : T) : ℚ :=
  if isClusterOfUnplacedIOPins target then boundaryDist P source target
  else |getPinX target - getPinX source| + |getPinY target - getPinY source|

theorem netLength_eq_iff (h : HasDie P die blocked) (source target : T) :
    netLength P source target = documentedLength die blocked P source target ↔
      (IsUnconstrained P source target → FindsNearest P.outline die blocked source) := by
  unfold netLength documentedLength
  by_cases hopen : IsUnconstrained P source target
  · rw [if_pos hopen, if_pos hopen.1, boundaryDist_eq_iff h hopen]
    exact ⟨fun hfinds _ => hfinds, fun hfinds => hfinds hopen⟩
  · rw [if_neg hopen]
    exact ⟨fun _ hopen' => absurd hopen' hopen, fun _ => rfl⟩

/-! ### All nets -/

theorem calWirelength_eq (macros : Nat → T) (hcore : 0 < P.coreWeights.wirelength)
    (htotal : 0 < (P.nets.map BundledNet.weight).sum) :
    calWirelength P macros =
      (P.nets.map fun net => net.weight * netLength P (macros net.source) (macros net.target)).sum /
        (P.nets.map BundledNet.weight).sum / (P.outline.getHeight + P.outline.getWidth) := by
  unfold calWirelength
  rw [if_neg (by simp [hcore, htotal])]
  dsimp only
  congr 4
  funext net
  unfold netLength
  split <;> rfl

theorem annealer_hasDie (P : Setup) (nets : List BundledNet) :
    HasDie (P.annealer die blocked nets) die blocked := by
  constructor <;> simp [Setup.annealer, Setup.setDieArea, Setup.setBlockedBoundariesForIOs]

end Net

/-- The net between some terminals, with a weight for one pair of them only. -/
def weighted (net t : Nat × Nat) : BundledNet := ⟨t.1, t.2, if t = net then 1 else 0⟩

/-- All copies of the net that has a weight add up. -/
theorem exists_weighted_sum {terminals : List (Nat × Nat)} {net : Nat × Nat} (hnet : net ∈ terminals) :
    ∃ copies : Nat, 0 < copies ∧ ∀ f : Nat × Nat → ℚ,
      ((terminals.map (weighted net)).map fun n => n.weight * f (n.source, n.target)).sum =
        copies * f net := by
  refine ⟨@List.count _ instBEqOfDecidableEq net terminals,
    (@List.count_pos_iff _ instBEqOfDecidableEq _ _ _).mpr hnet, fun f => ?_⟩
  have hmap : (terminals.map (weighted net)).map (fun n => n.weight * f (n.source, n.target)) =
      terminals.map fun t => if t = net then f t else 0 := by
    rw [List.map_map]
    apply List.map_congr_left
    intro t _
    refine (ite_mul _ _ _ _).trans ?_
    rw [one_mul, zero_mul]
    rfl
  rw [hmap, List.sum_map_ite_eq]
  simp

/-- The wirelength of all weighted nets between some terminals is the documented one, whatever the
weights, if and only if the nearest free boundary is found for each of the nets to unconstrained
pins. -/
theorem calWirelength_documented_iff {T : Type} [Macro T] (P : Setup) (die : Rect)
    (blocked : Finset Boundary) (hcore : 0 < P.coreWeights.wirelength)
    (houtline : 0 < P.outline.getHeight + P.outline.getWidth) (macros : Nat → T)
    (terminals : List (Nat × Nat)) :
    (∀ nets : List BundledNet, nets.map (fun net => (net.source, net.target)) = terminals →
        0 < (nets.map BundledNet.weight).sum →
        calWirelength (P.annealer die blocked nets) macros =
          documentedWirelength die blocked (P.annealer die blocked nets) macros) ↔
      ∀ net ∈ terminals, IsUnconstrained P (macros net.1) (macros net.2) →
        FindsNearest P.outline die blocked (macros net.1) := by
  constructor
  · intro h net hnet hopen
    -- only this net has a weight, and every copy of it the same
    obtain ⟨copies, hcopies, hsum⟩ := exists_weighted_sum hnet
    have htotal : ((terminals.map (weighted net)).map BundledNet.weight).sum = copies := by
      simpa using hsum fun _ => 1
    have hpos : 0 < ((terminals.map (weighted net)).map BundledNet.weight).sum := by
      rw [htotal]
      exact_mod_cast hcopies
    have heq := h (terminals.map (weighted net)) (by
      rw [List.map_map]
      exact List.map_id terminals) hpos
    rw [calWirelength_eq (P := P.annealer die blocked _) macros hcore hpos] at heq
    unfold documentedWirelength at heq
    have hsums := (div_left_inj' hpos.ne').mp ((div_left_inj' houtline.ne').mp heq)
    have hlength := hsum fun t => netLength (P.annealer die blocked (terminals.map (weighted net)))
      (macros t.1) (macros t.2)
    have hdocumented := hsum fun t => documentedLength die blocked
      (P.annealer die blocked (terminals.map (weighted net))) (macros t.1) (macros t.2)
    have heqs := hlength.symm.trans (hsums.trans hdocumented)
    have hlen := mul_left_cancel₀ (Nat.cast_ne_zero.mpr hcopies.ne') heqs
    exact (netLength_eq_iff (annealer_hasDie P _) (macros net.1) (macros net.2)).mp hlen hopen
  · intro h nets hterminals htotal
    rw [calWirelength_eq (P := P.annealer die blocked nets) macros hcore htotal]
    unfold documentedWirelength
    congr 3
    apply List.map_congr_left
    intro net hnet
    have hmem : (net.source, net.target) ∈ terminals := by
      rw [← hterminals]
      exact List.mem_map_of_mem hnet
    rw [(netLength_eq_iff (annealer_hasDie P nets) (macros net.source) (macros net.target)).mpr
      (h _ hmem)]

/-! ### A macro at one side -/

/-- An outline of ten by ten; only the wirelength has a weight. -/
def squareSetup : Setup where
  outline := ⟨0, 0, 10, 10⟩
  dieArea := ⟨0, 0, 0, 0⟩
  leftIsBlocked := false
  rightIsBlocked := false
  bottomIsBlocked := false
  topIsBlocked := false
  nets := []
  fences := []
  guides := []
  coreWeights := ⟨0, 0, 1, 0, 0⟩
  posSwapProb := 0
  negSwapProb := 0
  doubleSwapProb := 0
  exchangeProb := 0

/-- A macro of two by two halfway up, and pins that may be placed anywhere. -/
def macroAt (x : ℚ) : Nat → SoftMacro
  | 0 => ⟨x, 4, 2, 2, 4, [], [], some ⟨.HardMacroCluster, false, false, .NONE, 1, 4, 4⟩, false⟩
  | _ => ⟨0, 0, 10, 10, 0, [], [], some ⟨.StdCellCluster, true, true, .NONE, 0, 0, 0⟩, true⟩

/-- The boundary to the left of the macro is the nearest. -/
theorem calWirelength_documented_left :
    calWirelength (squareSetup.annealer ⟨0, 0, 10, 10⟩ ∅ [⟨0, 1, 1⟩]) (macroAt 0) =
      documentedWirelength ⟨0, 0, 10, 10⟩ ∅
        (squareSetup.annealer ⟨0, 0, 10, 10⟩ ∅ [⟨0, 1, 1⟩]) (macroAt 0) := by
  refine (calWirelength_documented_iff squareSetup ⟨0, 0, 10, 10⟩ ∅ (by decide +kernel)
    (by decide +kernel) (macroAt 0) [(0, 1)]).mpr ?_ [⟨0, 1, 1⟩] rfl (by decide +kernel)
  intro net hnet _
  rw [List.mem_singleton.mp hnet]
  refine ⟨by decide +kernel, fun _ _ => Or.inr ⟨_, List.mem_cons_self, by simp, by simp, ?_⟩⟩
  decide +kernel

/-- The boundary to the right of the macro is one away, and the source has the five to the bottom. -/
theorem not_calWirelength_documented :
    calWirelength (squareSetup.annealer ⟨0, 0, 10, 10⟩ ∅ [⟨0, 1, 1⟩]) (macroAt 8) ≠
      documentedWirelength ⟨0, 0, 10, 10⟩ ∅
        (squareSetup.annealer ⟨0, 0, 10, 10⟩ ∅ [⟨0, 1, 1⟩]) (macroAt 8) := by
  decide +kernel

end OpenRoad.Mpl
