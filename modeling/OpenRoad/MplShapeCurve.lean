import OpenRoad.IntervalMerge
import OpenRoad.MplAnnealing
import OpenRoad.Run
import Mathlib.Algebra.Order.Field.Basic
import Mathlib.Tactic.Linarith

/-!
The shape curve of a soft macro. The widths that a cluster of standard cells may have are kept in
intervals, and the heights that belong to them in a second list, the other way round; the shape is
moved along the curve, and the curve grows with the area.
-/

namespace OpenRoad.Mpl

/-- `isMinWidthSmaller` -/
def isMinWidthSmaller (a b : Interval) : Bool := a.min < b.min

/-- The step of a loop that adds a piece to a list, or extends the last one. -/
def pushOrExtend {α : Type} (apart : α → α → Bool) (extend : α → α → α) (pieces : List α) (piece : α) :
    List α :=
  match pieces.getLast? with
  | none => [piece]
  | some back =>
      if apart back piece then pieces ++ [piece] else pieces.dropLast ++ [extend back piece]

namespace SoftMacro

/-- A width interval is extended when the next one reaches further. -/
def mergeWidths (intervals : List Interval) : List Interval :=
  intervals.foldl (pushOrExtend (fun back old => old.min > back.max)
    fun back old => if old.max > back.max then { back with max := old.max } else back) []

/-- `setShapes` of a macro cluster: the tilings are points of the curve. -/
def setTilings (m : SoftMacro) (tilings : List (ℚ × ℚ)) (force : Bool) : SoftMacro :=
  if !force && (tilings.isEmpty || !m.isMacroCluster) then m
  else
    match tilings with
    | [] => m
    | (width, height) :: _ =>
        { m with
          widthIntervals := m.widthIntervals ++ tilings.map fun tiling => ⟨tiling.1, tiling.1⟩
          heightIntervals := m.heightIntervals ++ tilings.map fun tiling => ⟨tiling.2, tiling.2⟩
          width, height, area := width * height }

/-- `setShapes` of a cluster with standard cells -/
def setShapes (S : StdSort isMinWidthSmaller) (m : SoftMacro) (widthIntervals : List Interval)
    (area : ℚ) : SoftMacro :=
  if widthIntervals.isEmpty || area ≤ 0 ||
      (match m.cluster with
      | none => true
      | some cluster => cluster.isIOCluster || cluster.type = .HardMacroCluster) then m
  else
    let widths := mergeWidths (S.sort widthIntervals)
    let heights := widths.map fun width => (⟨area / width.max, area / width.min⟩ : Interval)
    match widths.head?, heights.head? with
    | some wfront, some hfront =>
        { m with
          widthIntervals := widths, heightIntervals := heights
          width := wfront.min, height := hfront.max, area }
    | _, _ => m

/-- The widths and heights of an area, for each of the pieces there are; pieces that meet are joined. -/
def growPieces (area : ℚ) (pieces : List (Interval × Interval)) : List (Interval × Interval) :=
  (pieces.map fun piece => ((⟨piece.1.min, area / piece.2.min⟩ : Interval),
      (⟨piece.2.min, area / piece.1.min⟩ : Interval))).foldl
    (pushOrExtend (fun back piece => piece.1.min > back.1.max)
      fun back piece => ({ back.1 with max := piece.1.max }, { back.2 with min := piece.2.min })) []

def setArea (m : SoftMacro) (area : ℚ) : SoftMacro :=
  if m.isRigid then m
  else
    match m.widthIntervals.head?, m.heightIntervals.head? with
    | some wfront, some hfront =>
        if area ≤ wfront.min * hfront.max then m
        else
          let pieces := growPieces area (m.widthIntervals.zip m.heightIntervals)
          match pieces.head? with
          | some front =>
              { m with
                widthIntervals := pieces.map Prod.fst, heightIntervals := pieces.map Prod.snd
                width := front.1.min, height := front.2.max, area }
          | none => m
    | _, _ => m

end SoftMacro

/-- The calls that change a shape. The random numbers of `resizeRandomly` are an interval and a number
between 0 and 1. -/
inductive ShapeOp where
  | setWidth (width : ℚ)
  | setHeight (height : ℚ)
  | setArea (area : ℚ)
  | resizeRandomly (idx : Nat) (draw : ℚ)

/-- A call; `none` for random numbers that are not drawn. -/
def ShapeOp.perform (m : SoftMacro) : ShapeOp → Option SoftMacro
  | setWidth width => some (m.setWidth width)
  | setHeight height => some (m.setHeight height)
  | setArea area => some (m.setArea area)
  | resizeRandomly idx draw =>
      if m.widthIntervals.isEmpty then some m
      else if idx < m.widthIntervals.length ∧ 0 ≤ draw ∧ draw ≤ 1 then some (m.resizeRandomly idx draw)
      else none

/-! ### Pieces -/

section Pieces

variable {α : Type} {apart : α → α → Bool} {extend : α → α → α}

theorem pushOrExtend_concat (pieces : List α) (back piece : α) :
    pushOrExtend apart extend (pieces ++ [back]) piece =
      if apart back piece then pieces ++ [back, piece] else pieces ++ [extend back piece] := by
  unfold pushOrExtend
  rw [List.getLast?_concat, List.dropLast_concat]
  simp only [List.append_assoc, List.cons_append, List.nil_append]

/-- What the pieces have one by one and one before the other; `Before` is what the last piece has to
those to come. -/
theorem foldl_pushOrExtend {P : α → Prop} {R Before : α → α → Prop}
    (happart : ∀ back piece, P back → P piece → apart back piece = true → R back piece)
    (htrans : ∀ a back piece, R a back → P back → R back piece → R a piece)
    (hextend : ∀ back piece, P back → P piece → Before back piece → P (extend back piece))
    (hkeep : ∀ a back piece, R a back → R a (extend back piece))
    (hbefore : ∀ back piece next, Before back piece → Before back next →
      Before (extend back piece) next)
    {rest : List α} (hrest : ∀ piece ∈ rest, P piece) (hsorted : rest.Pairwise Before) :
    (∀ piece ∈ rest.foldl (pushOrExtend apart extend) [], P piece) ∧
      (rest.foldl (pushOrExtend apart extend) []).Pairwise R ∧
      (rest ≠ [] → rest.foldl (pushOrExtend apart extend) [] ≠ []) := by
  cases rest with
  | nil => exact ⟨hrest, .nil, fun h => absurd rfl h⟩
  | cons first rest =>
      suffices hgen : ∀ pieces back, (∀ piece ∈ pieces ++ [back], P piece) →
          (pieces ++ [back]).Pairwise R → (∀ piece ∈ rest, Before back piece) →
          (∀ piece ∈ rest.foldl (pushOrExtend apart extend) (pieces ++ [back]), P piece) ∧
            (rest.foldl (pushOrExtend apart extend) (pieces ++ [back])).Pairwise R ∧
            rest.foldl (pushOrExtend apart extend) (pieces ++ [back]) ≠ [] by
        obtain ⟨hP, hR, hne⟩ := hgen [] first
          (fun piece h => hrest piece (List.mem_singleton.mp h ▸ List.mem_cons_self))
          (List.pairwise_singleton R first) (List.pairwise_cons.mp hsorted).1
        exact ⟨hP, hR, fun _ => hne⟩
      have hrest' : ∀ piece ∈ rest, P piece := fun piece h => hrest piece (List.mem_cons_of_mem _ h)
      have hsorted' : rest.Pairwise Before := (List.pairwise_cons.mp hsorted).2
      clear hrest hsorted
      induction rest with
      | nil => exact fun pieces back hP hR _ => ⟨hP, hR, by simp⟩
      | cons piece rest ih =>
          intro pieces back hP hR hbefore'
          obtain ⟨hpiece, htail⟩ := List.forall_mem_cons.mp hrest'
          obtain ⟨hnext, hback⟩ := List.forall_mem_cons.mp hbefore'
          obtain ⟨hlater, hsorted'⟩ := List.pairwise_cons.mp hsorted'
          obtain ⟨hpieces, hPback⟩ := List.forall_mem_append.mp hP
          have hPback := hPback back (List.mem_singleton_self back)
          obtain ⟨hRpieces, -, hcross⟩ := List.pairwise_append.mp hR
          have hcross : ∀ a ∈ pieces, R a back :=
            fun a ha => hcross a ha back (List.mem_singleton_self back)
          rw [List.foldl_cons, pushOrExtend_concat]
          split
          · have hRback := happart back piece hPback hpiece ‹_›
            have hlist : pieces ++ [back, piece] = (pieces ++ [back]) ++ [piece] := by simp
            rw [hlist]
            refine ih htail hsorted' (pieces ++ [back]) piece ?_ ?_ hlater
            · intro q hq
              rcases List.mem_append.mp hq with hq | hq
              · exact hP q hq
              · exact List.mem_singleton.mp hq ▸ hpiece
            · refine List.pairwise_append.mpr ⟨hR, List.pairwise_singleton R piece, ?_⟩
              intro a ha b hb
              rw [List.mem_singleton.mp hb]
              rcases List.mem_append.mp ha with ha | ha
              · exact htrans a back piece (hcross a ha) hPback hRback
              · exact List.mem_singleton.mp ha ▸ hRback
          · refine ih htail hsorted' pieces (extend back piece) ?_ ?_
              fun next hn => hbefore back piece next hnext (hback next hn)
            · intro q hq
              rcases List.mem_append.mp hq with hq | hq
              · exact hpieces q hq
              · exact List.mem_singleton.mp hq ▸ hextend back piece hPback hpiece hnext
            · refine List.pairwise_append.mpr ⟨hRpieces, List.pairwise_singleton R _, ?_⟩
              intro a ha b hb
              rw [List.mem_singleton.mp hb]
              exact hkeep a back piece (hcross a ha)

end Pieces

/-! ### Intervals -/

namespace Interval

/-- An interval of positive lengths. -/
structure Proper (i : Interval) : Prop where
  pos : 0 < i.min
  le : i.min ≤ i.max

def Has (i : Interval) (v : ℚ) : Prop := i.min ≤ v ∧ v ≤ i.max

/-- The heights that belong to some widths, for an area. -/
def reciprocal (area : ℚ) (i : Interval) : Interval := ⟨area / i.max, area / i.min⟩

variable {i : Interval} {area v : ℚ}

theorem Proper.max_pos (h : i.Proper) : 0 < i.max := h.pos.trans_le h.le

theorem Proper.has_min (h : i.Proper) : i.Has i.min := ⟨le_rfl, h.le⟩

theorem Proper.has_max (h : i.Proper) : i.Has i.max := ⟨h.le, le_rfl⟩

theorem Proper.pos_of_has (h : i.Proper) (hv : i.Has v) : 0 < v := h.pos.trans_le hv.1

theorem Proper.min_mul (h : i.Proper) (area : ℚ) : i.min * (i.reciprocal area).max = area :=
  mul_div_cancel₀ area h.pos.ne'

theorem Proper.max_mul (h : i.Proper) (area : ℚ) : i.max * (i.reciprocal area).min = area :=
  mul_div_cancel₀ area h.max_pos.ne'

theorem Proper.reciprocal (h : i.Proper) (harea : 0 < area) : (i.reciprocal area).Proper where
  pos := div_pos harea h.max_pos
  le := div_le_div_of_nonneg_left harea.le h.pos h.le

theorem Proper.reciprocal_has (h : i.Proper) (harea : 0 < area) (hv : i.Has v) :
    (i.reciprocal area).Has (area / v) :=
  ⟨div_le_div_of_nonneg_left harea.le (h.pos_of_has hv) hv.2,
    div_le_div_of_nonneg_left harea.le h.pos hv.1⟩

theorem Proper.has_of_reciprocal (h : i.Proper) (harea : 0 < area) (hv : (i.reciprocal area).Has v) :
    i.Has (area / v) := by
  have hpos : 0 < v := (h.reciprocal harea).pos_of_has hv
  obtain ⟨hlow, hhigh⟩ := hv
  constructor
  · exact (le_div_comm₀ h.pos hpos).mpr hhigh
  · exact (div_le_comm₀ h.max_pos hpos).mp hlow

end Interval

namespace SoftMacro

/-- The macro is on its curve: every width of its intervals belongs to one height, for its area. -/
structure OnCurve (m : SoftMacro) : Prop where
  area_pos : 0 < m.area
  proper : ∀ i ∈ m.widthIntervals, i.Proper
  disjoint : m.widthIntervals.Pairwise fun i j => i.max < j.min
  heights : m.heightIntervals = m.widthIntervals.map (Interval.reciprocal m.area)
  product : m.width * m.height = m.area
  onPiece : ∃ i ∈ m.widthIntervals, i.Has m.width

/-- The macro moved along its curve. -/
def moveTo (m : SoftMacro) (width : ℚ) : SoftMacro := { m with width, height := m.area / width }

variable {m : SoftMacro}

theorem OnCurve.moveTo (h : OnCurve m) {i : Interval} (hi : i ∈ m.widthIntervals) {v : ℚ}
    (hv : i.Has v) : OnCurve (m.moveTo v) where
  area_pos := h.area_pos
  proper := h.proper
  disjoint := h.disjoint
  heights := h.heights
  product := mul_div_cancel₀ m.area ((h.proper i hi).pos_of_has hv).ne'
  onPiece := ⟨i, hi, hv⟩

/-! ### The search for an interval -/

theorem findWidthInterval_spec {value : ℚ} {l : List Interval} (hproper : ∀ i ∈ l, i.Proper)
    (hdisjoint : l.Pairwise fun i j => i.max < j.min) (hlast : ∃ i ∈ l, value ≤ i.max) (idx : Nat) :
    ∃ k i, l[k]? = some i ∧ i.Has (max i.min value) ∧
      findWidthInterval value l idx = (idx + k, max i.min value) ∧
      ∀ j ∈ l, j.Has value → i.min ≤ value := by
  induction l generalizing idx with
  | nil =>
      obtain ⟨i, hi, -⟩ := hlast
      exact absurd hi List.not_mem_nil
  | cons first rest ih =>
      obtain ⟨hfirst, hrest⟩ := List.pairwise_cons.mp hdisjoint
      unfold findWidthInterval
      split
      · have hlast' : ∃ i ∈ rest, value ≤ i.max := by
          obtain ⟨i, hi, hle⟩ := hlast
          rcases List.mem_cons.mp hi with rfl | hi
          · exact absurd ‹i.max < value› hle.not_gt
          · exact ⟨i, hi, hle⟩
        obtain ⟨k, i, hk, hhas, heq, hall⟩ :=
          ih (fun i hi => hproper i (List.mem_cons_of_mem _ hi)) hrest hlast' (idx + 1)
        refine ⟨k + 1, i, hk, hhas, ?_, fun j hj hjhas => ?_⟩
        · rw [heq, Nat.add_assoc, Nat.add_comm 1 k]
        · rcases List.mem_cons.mp hj with rfl | hj
          · exact absurd ‹j.max < value› hjhas.2.not_gt
          · exact hall j hj hjhas
      · have hle : value ≤ first.max := not_lt.mp ‹_›
        refine ⟨0, first, rfl, ⟨le_max_left _ _, ?_⟩, ?_, fun j hj hjhas => ?_⟩
        · exact max_le (hproper first List.mem_cons_self).le hle
        · split
          · rw [max_eq_left ‹first.min > value›.le, Nat.add_zero]
          · rw [max_eq_right (not_lt.mp ‹_›), Nat.add_zero]
        · rcases List.mem_cons.mp hj with rfl | hj
          · exact hjhas.1
          · exact absurd (hle.trans_lt (hfirst j hj)) hjhas.1.not_gt

theorem findHeightInterval_spec {value : ℚ} {l : List Interval} (hproper : ∀ i ∈ l, i.Proper)
    (hlast : ∃ i ∈ l, i.min ≤ value) (idx : Nat) :
    ∃ k i, l[k]? = some i ∧ i.Has (min i.max value) ∧
      findHeightInterval value l idx = (idx + k, min i.max value) := by
  induction l generalizing idx with
  | nil =>
      obtain ⟨i, hi, -⟩ := hlast
      exact absurd hi List.not_mem_nil
  | cons first rest ih =>
      unfold findHeightInterval
      split
      · have hlast' : ∃ i ∈ rest, i.min ≤ value := by
          obtain ⟨i, hi, hle⟩ := hlast
          rcases List.mem_cons.mp hi with rfl | hi
          · exact absurd ‹i.min > value› hle.not_gt
          · exact ⟨i, hi, hle⟩
        obtain ⟨k, i, hk, hhas, heq⟩ :=
          ih (fun i hi => hproper i (List.mem_cons_of_mem _ hi)) hlast' (idx + 1)
        refine ⟨k + 1, i, hk, hhas, ?_⟩
        rw [heq, Nat.add_assoc, Nat.add_comm 1 k]
      · have hle : first.min ≤ value := not_lt.mp ‹_›
        refine ⟨0, first, rfl, ⟨?_, min_le_left _ _⟩, ?_⟩
        · exact le_min (hproper first List.mem_cons_self).le hle
        · split
          · rw [min_eq_left ‹first.max < value›.le, Nat.add_zero]
          · rw [min_eq_right (not_lt.mp ‹_›), Nat.add_zero]

/-- The heights of an interval of the curve. -/
theorem OnCurve.getElem?_heights (h : OnCurve m) {k : Nat} {i : Interval}
    (hi : m.widthIntervals[k]? = some i) :
    m.heightIntervals[k]? = some (i.reciprocal m.area) := by
  rw [h.heights, List.getElem?_map, hi]
  rfl

theorem OnCurve.heights_proper (h : OnCurve m) : ∀ i ∈ m.heightIntervals, i.Proper := by
  intro i hi
  rw [h.heights] at hi
  obtain ⟨w, hw, rfl⟩ := List.mem_map.mp hi
  exact (h.proper w hw).reciprocal h.area_pos

theorem OnCurve.intervalArea (h : OnCurve m) {k : Nat} {i : Interval}
    (hi : m.widthIntervals[k]? = some i) : m.intervalArea k = m.area := by
  unfold SoftMacro.intervalArea
  rw [hi, h.getElem?_heights hi]
  exact (h.proper i (List.mem_of_getElem? hi)).max_mul m.area

/-! ### Moving along the curve -/

theorem OnCurve.head_le (h : OnCurve m) {front : Interval} (hfront : m.widthIntervals.head? = some front)
    {i : Interval} (hi : i ∈ m.widthIntervals) : front.min ≤ i.min := by
  obtain ⟨rest, hlist⟩ := List.head?_eq_some_iff.mp hfront
  have hsorted := h.disjoint
  rw [hlist] at hi hsorted
  rcases List.mem_cons.mp hi with rfl | hi
  · exact le_rfl
  · have hproper := h.proper front (List.mem_of_head? hfront)
    exact hproper.le.trans ((List.pairwise_cons.mp hsorted).1 i hi).le

theorem OnCurve.le_getLast (h : OnCurve m) {back : Interval}
    (hback : m.widthIntervals.getLast? = some back) {i : Interval} (hi : i ∈ m.widthIntervals) :
    i.max ≤ back.max := by
  obtain ⟨rest, hlist⟩ := List.getLast?_eq_some_iff.mp hback
  have hsorted := h.disjoint
  rw [hlist] at hi hsorted
  rcases List.mem_append.mp hi with hi | hi
  · have hproper := h.proper back (List.mem_of_getLast? hback)
    have hlt := (List.pairwise_append.mp hsorted).2.2 i hi back (List.mem_singleton_self back)
    exact hlt.le.trans hproper.le
  · rw [List.mem_singleton.mp hi]

/-- The first and the last piece of the curve, as the source reads them. -/
theorem OnCurve.ends (h : OnCurve m) : ∃ front back, m.widthIntervals.head? = some front ∧
    m.widthIntervals.getLast? = some back ∧
    m.heightIntervals.head? = some (front.reciprocal m.area) ∧
    m.heightIntervals.getLast? = some (back.reciprocal m.area) := by
  obtain ⟨i, hi, -⟩ := h.onPiece
  have hne : m.widthIntervals ≠ [] := List.ne_nil_of_mem hi
  refine ⟨_, _, List.head?_eq_some_head hne, List.getLast?_eq_some_getLast hne, ?_, ?_⟩
  · rw [h.heights, List.head?_map, List.head?_eq_some_head hne]
    rfl
  · rw [h.heights, List.getLast?_map, List.getLast?_eq_some_getLast hne]
    rfl

/-- `setWidth` does nothing, or moves the macro along its curve, to the width asked for where the curve
has it. -/
theorem setWidth_cases (h : OnCurve m) (width : ℚ) :
    ((width ≤ 0 ∨ m.isRigid = true) ∧ m.setWidth width = m) ∨
      ∃ i ∈ m.widthIntervals, ∃ v, i.Has v ∧ m.setWidth width = m.moveTo v ∧
        ∀ j ∈ m.widthIntervals, j.Has width → v = width := by
  obtain ⟨front, back, hfront, hback, hhfront, hhback⟩ := h.ends
  have hmem : front ∈ m.widthIntervals := List.mem_of_head? hfront
  have hmem' : back ∈ m.widthIntervals := List.mem_of_getLast? hback
  unfold setWidth
  rw [hfront, hback, hhfront, hhback]
  dsimp only
  split
  · refine Or.inl ⟨?_, rfl⟩
    simpa using ‹(width ≤ 0 || m.isRigid) = true›
  split
  · refine Or.inr ⟨front, hmem, front.min, (h.proper front hmem).has_min, ?_, ?_⟩
    · unfold moveTo
      rw [(h.proper front hmem).min_mul m.area]
      rfl
    · exact fun j hj hhas => le_antisymm ((h.head_le hfront hj).trans hhas.1) ‹width ≤ front.min›
  split
  · refine Or.inr ⟨back, hmem', back.max, (h.proper back hmem').has_max, ?_, ?_⟩
    · unfold moveTo
      rw [(h.proper back hmem').max_mul m.area]
      rfl
    · exact fun j hj hhas => le_antisymm ‹width ≥ back.max› (hhas.2.trans (h.le_getLast hback hj))
  · have hlast : ∃ i ∈ m.widthIntervals, width ≤ i.max := ⟨back, hmem', (not_le.mp ‹_›).le⟩
    obtain ⟨k, i, hk, hhas, hfind, hall⟩ := findWidthInterval_spec h.proper h.disjoint hlast 0
    refine Or.inr ⟨i, List.mem_of_getElem? hk, max i.min width, hhas, ?_,
      fun j hj hjhas => max_eq_right (hall j hj hjhas)⟩
    rw [hfind, Nat.zero_add]
    dsimp only
    rw [h.intervalArea hk]
    rfl

/-- `setHeight` does nothing, or moves the macro along its curve. -/
theorem setHeight_cases (h : OnCurve m) (height : ℚ) : m.setHeight height = m ∨
    ∃ i ∈ m.widthIntervals, ∃ v, i.Has v ∧ m.setHeight height = m.moveTo v := by
  obtain ⟨front, back, hfront, hback, hhfront, hhback⟩ := h.ends
  have hmem : front ∈ m.widthIntervals := List.mem_of_head? hfront
  have hmem' : back ∈ m.widthIntervals := List.mem_of_getLast? hback
  unfold setHeight
  rw [hfront, hback, hhfront, hhback]
  dsimp only
  split
  · exact Or.inl rfl
  split
  · refine Or.inr ⟨front, hmem, front.min, (h.proper front hmem).has_min, ?_⟩
    unfold moveTo
    rw [(h.proper front hmem).min_mul m.area]
    rfl
  split
  · refine Or.inr ⟨back, hmem', back.max, (h.proper back hmem').has_max, ?_⟩
    unfold moveTo
    rw [(h.proper back hmem').max_mul m.area]
    rfl
  · have hlast : ∃ i ∈ m.heightIntervals, i.min ≤ height :=
      ⟨_, List.mem_of_getLast? hhback, (not_le.mp ‹_›).le⟩
    obtain ⟨k, i, hk, hhas, hfind⟩ := findHeightInterval_spec h.heights_proper hlast 0
    obtain ⟨w, hw, rfl⟩ : ∃ w, m.widthIntervals[k]? = some w ∧ w.reciprocal m.area = i := by
      rw [h.heights, List.getElem?_map] at hk
      exact Option.map_eq_some_iff.mp hk
    have hwmem := List.mem_of_getElem? hw
    have hhas' := (h.proper w hwmem).has_of_reciprocal h.area_pos hhas
    have hpos := ((h.proper w hwmem).reciprocal h.area_pos).pos_of_has hhas
    refine Or.inr ⟨w, hwmem, _, hhas', ?_⟩
    rw [hfind, Nat.zero_add]
    dsimp only
    rw [h.intervalArea hw]
    unfold moveTo
    rw [div_div_cancel₀ h.area_pos.ne']

theorem OnCurve.resizeRandomly (h : OnCurve m) {idx : Nat} {draw : ℚ}
    (hidx : idx < m.widthIntervals.length) (hlow : 0 ≤ draw) (hhigh : draw ≤ 1) :
    OnCurve (m.resizeRandomly idx draw) := by
  have hw : m.widthIntervals[idx]? = some m.widthIntervals[idx] := List.getElem?_eq_getElem hidx
  have hmem : m.widthIntervals[idx] ∈ m.widthIntervals := List.getElem_mem hidx
  generalize m.widthIntervals[idx] = w at hw hmem
  have hproper := h.proper w hmem
  have heq : m.resizeRandomly idx draw = m.moveTo (w.min + draw * (w.max - w.min)) := by
    unfold SoftMacro.resizeRandomly
    rw [hw, h.getElem?_heights hw]
    dsimp only
    rw [hproper.min_mul m.area]
    rfl
  rw [heq]
  refine h.moveTo hmem ⟨?_, ?_⟩
  · exact le_add_of_nonneg_right (mul_nonneg hlow (sub_nonneg.mpr hproper.le))
  · have hstep : draw * (w.max - w.min) ≤ w.max - w.min :=
      mul_le_of_le_one_left (sub_nonneg.mpr hproper.le) hhigh
    linarith

/-! ### A new curve -/

/-- A curve of proper pieces that are apart, with the heights for an area. -/
theorem OnCurve.of_pieces (m : SoftMacro) {area : ℚ} (harea : 0 < area) {front : Interval}
    {widths : List Interval} (hfront : widths.head? = some front) (hproper : ∀ i ∈ widths, i.Proper)
    (hdisjoint : widths.Pairwise fun i j => i.max < j.min) :
    OnCurve { m with
      widthIntervals := widths, heightIntervals := widths.map (Interval.reciprocal area)
      width := front.min, height := (front.reciprocal area).max, area } where
  area_pos := harea
  proper := hproper
  disjoint := hdisjoint
  heights := rfl
  product := (hproper front (List.mem_of_head? hfront)).min_mul area
  onPiece := ⟨front, List.mem_of_head? hfront, (hproper front (List.mem_of_head? hfront)).has_min⟩

theorem mergeWidths_spec {intervals : List Interval} (hproper : ∀ i ∈ intervals, i.Proper) :
    (∀ i ∈ mergeWidths intervals, i.Proper) ∧
      (mergeWidths intervals).Pairwise (fun i j => i.max < j.min) ∧
      (intervals ≠ [] → mergeWidths intervals ≠ []) := by
  refine @foldl_pushOrExtend _ _ _ Interval.Proper (fun i j => i.max < j.min) (fun _ _ => True)
    ?_ ?_ ?_ ?_ (fun _ _ _ _ _ => trivial) intervals hproper
    (List.pairwise_of_forall fun _ _ => trivial)
  · exact fun back piece _ _ hapart => of_decide_eq_true hapart
  · exact fun a back piece hab hback hbp => hab.trans_le (hback.le.trans hbp.le)
  · intro back piece hback hpiece _
    split
    · exact ⟨hback.pos, hback.le.trans ‹piece.max > back.max›.le⟩
    · exact hback
  · intro a back piece hab
    split
    · exact hab
    · exact hab

theorem setShapes_onCurve (S : StdSort isMinWidthSmaller) {m : SoftMacro} {cluster : Cluster}
    (hcluster : m.cluster = some cluster) (hkind : cluster.type ≠ .HardMacroCluster)
    (hio : cluster.isIOCluster = false) {widthIntervals : List Interval} (hne : widthIntervals ≠ [])
    (hproper : ∀ i ∈ widthIntervals, i.Proper) {area : ℚ} (harea : 0 < area) :
    OnCurve (m.setShapes S widthIntervals area) := by
  have hsorted : ∀ i ∈ S.sort widthIntervals, i.Proper :=
    fun i hi => hproper i ((S.perm widthIntervals).mem_iff.mp hi)
  have hsne : S.sort widthIntervals ≠ [] := fun hnil =>
    hne (List.nil_perm.mp (hnil ▸ S.perm widthIntervals))
  obtain ⟨hwidths, hdisjoint, hwne⟩ := mergeWidths_spec hsorted
  obtain ⟨front, rest, hlist⟩ := List.exists_cons_of_ne_nil (hwne hsne)
  unfold setShapes
  rw [if_neg (by simp [hne, not_le.mpr harea, hcluster, hkind, hio])]
  dsimp only
  rw [hlist] at hwidths hdisjoint ⊢
  exact OnCurve.of_pieces m harea rfl hwidths hdisjoint

/-- The pieces of a larger area on the curve of a smaller one. -/
theorem growPieces_spec {old area : ℚ} (hold : 0 < old) (hlt : old < area) {widths : List Interval}
    (hproper : ∀ i ∈ widths, i.Proper) (hdisjoint : widths.Pairwise fun i j => i.max < j.min) :
    (∀ piece ∈ growPieces area (widths.zip (widths.map (Interval.reciprocal old))),
        piece.1.Proper ∧ piece.2 = piece.1.reciprocal area) ∧
      (growPieces area (widths.zip (widths.map (Interval.reciprocal old)))).Pairwise
        (fun back piece => back.1.max < piece.1.min) ∧
      (widths ≠ [] → growPieces area (widths.zip (widths.map (Interval.reciprocal old))) ≠ []) := by
  have hzip : widths.zip (widths.map (Interval.reciprocal old)) =
      widths.map fun i => (i, i.reciprocal old) := by
    simpa using List.zip_map' (f := id) (g := Interval.reciprocal old) (l := widths)
  unfold growPieces
  rw [hzip, List.map_map]
  have hspec := @foldl_pushOrExtend (Interval × Interval)
    (fun back piece => piece.1.min > back.1.max)
    (fun back piece => ({ back.1 with max := piece.1.max }, { back.2 with min := piece.2.min }))
    (fun piece => piece.1.Proper ∧ piece.2 = piece.1.reciprocal area)
    (fun back piece => back.1.max < piece.1.min) (fun back piece => back.1.min ≤ piece.1.min)
    (fun back piece _ _ hapart => of_decide_eq_true hapart)
    (fun a back piece hab hback hbp => hab.trans_le (hback.1.le.trans hbp.le))
    (fun back piece hback hpiece hle => ⟨⟨hback.1.pos, hle.trans hpiece.1.le⟩, by
      rw [hback.2, hpiece.2]
      rfl⟩)
    (fun a back piece hab => hab) (fun back piece next _ hle => hle)
    (widths.map ((fun piece : Interval × Interval => ((⟨piece.1.min, area / piece.2.min⟩ : Interval),
      (⟨piece.2.min, area / piece.1.min⟩ : Interval))) ∘ fun i => (i, i.reciprocal old)))
    ?_ ?_
  · refine ⟨hspec.1, hspec.2.1, fun hne => hspec.2.2 ?_⟩
    exact fun hnil => hne (List.map_eq_nil_iff.mp hnil)
  · intro piece hpiece
    obtain ⟨i, hi, rfl⟩ := List.mem_map.mp hpiece
    have hiproper := hproper i hi
    have hmin : 0 < old / i.max := div_pos hold hiproper.max_pos
    have hgrow : i.max ≤ area / (old / i.max) := by
      rw [le_div_iff₀ hmin, mul_div_cancel₀ old hiproper.max_pos.ne']
      exact hlt.le
    refine ⟨⟨hiproper.pos, hiproper.le.trans hgrow⟩, ?_⟩
    show (⟨old / i.max, area / i.min⟩ : Interval) = ⟨area / (area / (old / i.max)), area / i.min⟩
    rw [div_div_cancel₀ (hold.trans hlt).ne']
  · refine List.pairwise_map.mpr (hdisjoint.imp_of_mem fun {i j} hi _ hij => ?_)
    exact (hproper i hi).le.trans hij.le

theorem OnCurve.setArea (h : OnCurve m) (area : ℚ) : OnCurve (m.setArea area) := by
  obtain ⟨front, back, hfront, -, hhfront, -⟩ := h.ends
  have hmem : front ∈ m.widthIntervals := List.mem_of_head? hfront
  unfold SoftMacro.setArea
  rw [hfront, hhfront]
  dsimp only
  split
  · exact h
  split
  · exact h
  · have hlt : m.area < area := by
      rw [← (h.proper front hmem).min_mul m.area]
      exact not_le.mp ‹_›
    obtain ⟨hpieces, hdisjoint, hne⟩ := growPieces_spec h.area_pos hlt h.proper h.disjoint
    obtain ⟨first, rest, hlist⟩ := List.exists_cons_of_ne_nil (hne (List.ne_nil_of_mem hmem))
    rw [h.heights]
    rw [hlist] at hpieces hdisjoint ⊢
    have hheights : (first :: rest).map Prod.snd =
        ((first :: rest).map Prod.fst).map (Interval.reciprocal area) := by
      rw [List.map_map]
      exact List.map_congr_left fun piece hpiece => (hpieces piece hpiece).2
    have hcurve := OnCurve.of_pieces m (h.area_pos.trans hlt)
      (show ((first :: rest).map Prod.fst).head? = some first.1 from rfl)
      (fun i hi => by
        obtain ⟨piece, hpiece, rfl⟩ := List.mem_map.mp hi
        exact (hpieces piece hpiece).1)
      (List.pairwise_map.mpr hdisjoint)
    dsimp only [List.head?_cons]
    rw [hheights, (hpieces first List.mem_cons_self).2]
    exact hcurve

/-! ### Runs -/

theorem OnCurve.perform {m' : SoftMacro} (h : OnCurve m) {op : ShapeOp} (hop : op.perform m = some m') :
    OnCurve m' := by
  cases op with
  | setWidth width =>
      obtain rfl := Option.some.inj hop
      rcases setWidth_cases h width with ⟨-, heq⟩ | ⟨i, hi, v, hv, heq, -⟩
      · rw [heq]
        exact h
      · rw [heq]
        exact h.moveTo hi hv
  | setHeight height =>
      obtain rfl := Option.some.inj hop
      rcases setHeight_cases h height with heq | ⟨i, hi, v, hv, heq⟩
      · rw [heq]
        exact h
      · rw [heq]
        exact h.moveTo hi hv
  | setArea area =>
      obtain rfl := Option.some.inj hop
      exact h.setArea area
  | resizeRandomly idx draw =>
      change (if m.widthIntervals.isEmpty then some m
        else if idx < m.widthIntervals.length ∧ 0 ≤ draw ∧ draw ≤ 1 then
          some (m.resizeRandomly idx draw) else none) = some m' at hop
      split at hop
      · exact Option.some.inj hop ▸ h
      split at hop
      · obtain ⟨hidx, hlow, hhigh⟩ := ‹idx < m.widthIntervals.length ∧ 0 ≤ draw ∧ draw ≤ 1›
        exact Option.some.inj hop ▸ h.resizeRandomly hidx hlow hhigh
      · exact absurd hop (Option.some_ne_none m').symm

/-- The lists of a macro, its shape and its area fit together, and what `setWidth` and `setHeight`
search for is in the lists. -/
structure ShapeFits (m : SoftMacro) : Prop where
  lengths : m.widthIntervals.length = m.heightIntervals.length
  disjoint : m.widthIntervals.Pairwise fun i j => i.max < j.min
  areas : ∀ (k : Nat) (w h : Interval), m.widthIntervals[k]? = some w → m.heightIntervals[k]? = some h →
    w.min ≤ w.max ∧ w.min * h.max = m.area ∧ w.max * h.min = m.area
  area : m.area = m.width * m.height
  shape : ∃ (k : Nat) (w h : Interval), m.widthIntervals[k]? = some w ∧ m.heightIntervals[k]? = some h ∧
    w.Has m.width ∧ h.Has m.height
  widthInList : ∀ value, (∃ back, m.widthIntervals.getLast? = some back ∧ value < back.max) →
    (findWidthInterval value m.widthIntervals 0).1 < m.widthIntervals.length
  heightInList : ∀ value, (∃ back, m.heightIntervals.getLast? = some back ∧ back.min < value) →
    (findHeightInterval value m.heightIntervals 0).1 < m.heightIntervals.length

theorem OnCurve.shapeFits (h : OnCurve m) : ShapeFits m where
  lengths := by rw [h.heights, List.length_map]
  disjoint := h.disjoint
  areas k w i hw hi := by
    have hproper := h.proper w (List.mem_of_getElem? hw)
    obtain rfl := Option.some.inj (hi.symm.trans (h.getElem?_heights hw))
    exact ⟨hproper.le, hproper.min_mul m.area, hproper.max_mul m.area⟩
  area := h.product.symm
  shape := by
    obtain ⟨w, hw, hhas⟩ := h.onPiece
    obtain ⟨k, hk⟩ := List.getElem?_of_mem hw
    refine ⟨k, w, _, hk, h.getElem?_heights hk, hhas, ?_⟩
    have hproper := h.proper w hw
    have hheight : m.height = m.area / m.width := by
      rw [← h.product, mul_div_cancel_left₀ _ (hproper.pos_of_has hhas).ne']
    rw [hheight]
    exact hproper.reciprocal_has h.area_pos hhas
  widthInList value := by
    rintro ⟨back, hback, hlt⟩
    obtain ⟨k, i, hk, -, hfind, -⟩ := findWidthInterval_spec h.proper h.disjoint
      ⟨back, List.mem_of_getLast? hback, hlt.le⟩ 0
    rw [hfind, Nat.zero_add]
    exact (List.getElem?_eq_some_iff.mp hk).1
  heightInList value := by
    rintro ⟨back, hback, hlt⟩
    obtain ⟨k, i, hk, -, hfind⟩ := findHeightInterval_spec h.heights_proper
      ⟨back, List.mem_of_getLast? hback, hlt.le⟩ 0
    rw [hfind, Nat.zero_add]
    exact (List.getElem?_eq_some_iff.mp hk).1

/-- After `setShapes`, a macro stays on its curve. -/
theorem setShapes_run_fits (S : StdSort isMinWidthSmaller) (m : SoftMacro) (cluster : Cluster)
    (hcluster : m.cluster = some cluster) (hkind : cluster.type ≠ .HardMacroCluster)
    (hio : cluster.isIOCluster = false) (widthIntervals : List Interval) (hne : widthIntervals ≠ [])
    (hproper : ∀ i ∈ widthIntervals, i.Proper) (area : ℚ) (harea : 0 < area) (ops : List ShapeOp)
    (m' : SoftMacro) (hrun : Run.run ShapeOp.perform (m.setShapes S widthIntervals area) ops = some m') :
    ShapeFits m' := by
  have hcurve : OnCurve m' := Run.run_invariant_of_step (fun _ _ _ h hop => OnCurve.perform h hop)
    (setShapes_onCurve S hcluster hkind hio hne hproper harea) hrun
  exact hcurve.shapeFits

/-- Insertion sort by the smallest width. -/
def minWidthSort : StdSort isMinWidthSmaller where
  sort := List.insertionSort fun a b => a.min ≤ b.min
  perm := List.perm_insertionSort _
  sorted l := by
    have : Std.Total fun a b : Interval => a.min ≤ b.min := ⟨fun a b => le_total a.min b.min⟩
    have : IsTrans Interval fun a b => a.min ≤ b.min := ⟨fun a b c => le_trans⟩
    refine (List.pairwise_insertionSort (fun a b : Interval => a.min ≤ b.min) l).imp fun hle => ?_
    exact decide_eq_false (not_lt.mpr hle)

/-- A cluster with widths from 1 to 2 and from 3 to 4. -/
def stdCellMacro : SoftMacro where
  x := 0
  y := 0
  width := 0
  height := 0
  area := 0
  widthIntervals := []
  heightIntervals := []
  cluster := some ⟨.StdCellCluster, false, false, .NONE, 0, 0, 12⟩
  fixed := false

/-- A width in the gap, an area that joins the pieces, a height and random numbers. -/
def shapeOps : List ShapeOp := [.setWidth (5 / 2), .setArea 18, .setHeight 5, .resizeRandomly 0 (1 / 2)]

theorem setShapes_run_fits_twoPieces :
    ∃ m', Run.run ShapeOp.perform (stdCellMacro.setShapes minWidthSort [⟨3, 4⟩, ⟨1, 2⟩] 12) shapeOps =
      some m' ∧ ShapeFits m' := by
  have hsome : (Run.run ShapeOp.perform (stdCellMacro.setShapes minWidthSort [⟨3, 4⟩, ⟨1, 2⟩] 12)
      shapeOps).isSome = true := by decide +kernel
  obtain ⟨m', hm'⟩ := Option.isSome_iff_exists.mp hsome
  have hproper : ∀ i ∈ [(⟨3, 4⟩ : Interval), ⟨1, 2⟩], i.Proper := by
    intro i hi
    rcases List.mem_pair.mp hi with rfl | rfl <;> constructor <;> norm_num
  exact ⟨m', hm', setShapes_run_fits minWidthSort stdCellMacro _ rfl (by decide) rfl _ (by simp)
    hproper 12 (by norm_num) shapeOps m' hm'⟩

end SoftMacro

end OpenRoad.Mpl
