import OpenRoad.DrtGuideBridges
import Mathlib.Data.List.GetD
import Mathlib.Data.List.Induction
import Mathlib.Data.Int.Cast.Basic
import Mathlib.Algebra.Ring.Int.Defs
import Mathlib.Tactic.IntervalCases

/-!
Guides that touch are connected once the bridges are added. The corners only add cells, each beside
two cells that were there before; so guides side by side are found on neighbouring tracks of the map,
and each interval they share has a bridge or gets one.
-/

namespace OpenRoad.Drt

open JoinedSpans (Span SpanSet)
open LayerSpans

/-! ### Guide cells -/

/-- A gcell of a layer by its track and its index along the track. -/
structure GuideCell where
  layer : Nat
  track : Int
  idx : Int
  deriving DecidableEq

def IsGuide (intvs : LayerSpans) (c : GuideCell) : Prop :=
  (spansAt intvs c.layer c.track).contains c.idx = true

namespace GuideCell

/-- On neighbouring tracks of a layer at the same index. -/
def Touches (a b : GuideCell) : Prop :=
  a.layer = b.layer ∧ b.track = a.track + 1 ∧ a.idx = b.idx

/-- Joined along a track, or vertically between layers two apart, where the indices change places. -/
def Joined (a b : GuideCell) : Prop :=
  (a.layer = b.layer ∧ a.track = b.track ∧ (b.idx = a.idx + 1 ∨ a.idx = b.idx + 1)) ∨
    ((b.layer = a.layer + 2 ∨ a.layer = b.layer + 2) ∧ b.track = a.idx ∧ b.idx = a.track)

theorem Joined.symm {a b : GuideCell} (h : a.Joined b) : b.Joined a := by
  rcases h with ⟨hlayer, htrack, hidx⟩ | ⟨hlayer, htrack, hidx⟩
  · exact .inl ⟨hlayer.symm, htrack.symm, hidx.symm⟩
  · exact .inr ⟨hlayer.symm, hidx.symm, htrack.symm⟩

/-- The cell completes a corner between two cells of its layer: one of them is beside it on its
track, the other one on a neighbouring track. -/
def CompletesCorner (S : GuideCell → Prop) (c : GuideCell) : Prop :=
  ∃ idx track, (idx = c.idx + 1 ∨ c.idx = idx + 1) ∧ (track = c.track + 1 ∨ c.track = track + 1) ∧
    S ⟨c.layer, c.track, idx⟩ ∧ S ⟨c.layer, track, c.idx⟩

/-- The cell lies on a layer two apart over one of two cells that touch. -/
def Bridges (S : GuideCell → Prop) (c : GuideCell) : Prop :=
  ∃ a b, S a ∧ S b ∧ a.Touches b ∧ (c.layer = a.layer + 2 ∨ a.layer = c.layer + 2) ∧
    c.track = a.idx ∧ (c.idx = a.track ∨ c.idx = b.track)

end GuideCell

open GuideCell

/-- Joined cells one after the other, all of them guides. -/
def Connected (intvs : LayerSpans) : GuideCell → GuideCell → Prop :=
  Relation.ReflTransGen fun a b => IsGuide intvs a ∧ IsGuide intvs b ∧ a.Joined b

theorem Connected.symm {intvs : LayerSpans} {a b : GuideCell} (h : Connected intvs a b) :
    Connected intvs b a := by
  induction h with
  | refl => exact .refl
  | tail _ hstep ih => exact .head ⟨hstep.2.1, hstep.1, hstep.2.2.symm⟩ ih

/-- Along a track. -/
theorem connected_along {intvs : LayerSpans} {layer : Nat} {track i : Int} (n : Nat)
    (h : ∀ x, i ≤ x → x ≤ i + n → IsGuide intvs ⟨layer, track, x⟩) :
    Connected intvs ⟨layer, track, i⟩ ⟨layer, track, i + n⟩ := by
  induction n with
  | zero =>
      simp only [Nat.cast_zero, add_zero]
      exact .refl
  | succ n ih =>
      have hprev := ih fun x hx hle => h x hx (by omega)
      refine hprev.tail ⟨h _ (by omega) (by omega), h _ (by omega) le_rfl, .inl ⟨rfl, rfl, .inl ?_⟩⟩
      dsimp only
      omega

theorem connected_of_span {intvs : LayerSpans} {layer : Nat} {track : Int} {s : Span}
    (h : ∀ x, s.lower ≤ x → x ≤ s.upper → IsGuide intvs ⟨layer, track, x⟩) {i j : Int}
    (hi : s.lower ≤ i ∧ i ≤ s.upper) (hj : s.lower ≤ j ∧ j ≤ s.upper) :
    Connected intvs ⟨layer, track, i⟩ ⟨layer, track, j⟩ := by
  have hfrom : ∀ i j, s.lower ≤ i → i ≤ j → j ≤ s.upper →
      Connected intvs ⟨layer, track, i⟩ ⟨layer, track, j⟩ := by
    intro i j hi hij hj
    obtain ⟨n, rfl⟩ := Int.le.dest hij
    exact connected_along n fun x hx hle => h x (hi.trans hx) (hle.trans hj)
  rcases le_total i j with hij | hji
  · exact hfrom i j hi.1 hij hj.2
  · exact (hfrom j i hj.1 hji hi.2).symm

/-! ### Insertion -/

theorem isGuide_lt {intvs : LayerSpans} {c : GuideCell} (h : IsGuide intvs c) :
    c.layer < intvs.length := by
  by_contra hge
  rw [IsGuide, spansAt, List.getD_eq_default _ _ (not_lt.mp hge)] at h
  exact absurd h (by simp [spansOf, OrderedMap.find?, OrderedMap.empty])

theorem isGuide_insertAt {intvs : LayerSpans} {layer : Nat} {track : Int} {s : Span}
    {c : GuideCell} : IsGuide (insertAt intvs layer track s) c ↔
      (layer < intvs.length ∧ c.layer = layer ∧ c.track = track ∧ s.lower ≤ c.idx ∧
        c.idx ≤ s.upper) ∨ IsGuide intvs c := by
  rw [IsGuide, IsGuide, spansAt, spansAt, insertAt]
  by_cases hlayer : c.layer = layer
  · rcases lt_or_ge layer intvs.length with hlt | hge
    · subst hlayer
      rw [List.getD_eq_getElem _ _ (by simpa using hlt), List.getD_eq_getElem _ _ hlt,
        List.getElem_modify_eq, spansOf, spansOf, OrderedMap.find?_alter]
      by_cases htrack : c.track = track
      · subst htrack
        rw [if_pos rfl, Option.getD_some, SpanSet.contains_insert]
        simp [hlt]
      · simp [htrack]
    · rw [List.getD_eq_default _ _ (by simpa [hlayer] using hge),
        List.getD_eq_default _ _ (by simpa [hlayer] using hge)]
      simp [not_lt.mpr hge]
  · have hsame : (intvs.modify layer fun tracks =>
        tracks.alter track SpanSet.empty (·.insert s)).getD c.layer OrderedMap.empty =
          intvs.getD c.layer OrderedMap.empty := by
      simp [List.getD_eq_getElem?_getD, Ne.symm hlayer]
    rw [hsame]
    simp [hlayer]

theorem length_insertAt (intvs : LayerSpans) (layer : Nat) (track : Int) (s : Span) :
    (insertAt intvs layer track s).length = intvs.length := List.length_modify ..

/-! ### Corners -/

/-- Cells that complete corners one after the other. -/
def CornersOf (S : GuideCell → Prop) (corners : List GuideCell) : Prop :=
  ∀ before c after, corners = before ++ c :: after →
    CompletesCorner (fun d => S d ∨ d ∈ before) c

/-- The guides grow by corners only. -/
def Grows (intvs intvs' : LayerSpans) : Prop :=
  intvs'.length = intvs.length ∧ ∃ corners, CornersOf (IsGuide intvs) corners ∧
    ∀ c, IsGuide intvs' c ↔ IsGuide intvs c ∨ c ∈ corners

namespace Grows

variable {intvs intvs' intvs'' : LayerSpans}

theorem refl (intvs : LayerSpans) : Grows intvs intvs :=
  ⟨rfl, [], fun before c after h => absurd h (by simp), by simp⟩

theorem subset (h : Grows intvs intvs') {c : GuideCell} (hc : IsGuide intvs c) :
    IsGuide intvs' c := by
  obtain ⟨-, corners, -, hiff⟩ := h
  exact (hiff c).mpr (.inl hc)

theorem trans (h : Grows intvs intvs') (h' : Grows intvs' intvs'') : Grows intvs intvs'' := by
  obtain ⟨hlen, corners, hcorners, hiff⟩ := h
  obtain ⟨hlen', corners', hcorners', hiff'⟩ := h'
  refine ⟨hlen'.trans hlen, corners ++ corners', fun before c after hsplit => ?_, fun c => ?_⟩
  · rcases List.append_eq_append_iff.mp hsplit with ⟨rest, rfl, hrest⟩ | ⟨rest, hrest, hafter⟩
    · obtain ⟨idx, track, hidx, htrack, hfirst, hsecond⟩ := hcorners' rest c after hrest
      refine ⟨idx, track, hidx, htrack, ?_, ?_⟩
      · rw [hiff, or_assoc, ← List.mem_append] at hfirst
        exact hfirst
      · rw [hiff, or_assoc, ← List.mem_append] at hsecond
        exact hsecond
    · cases rest with
      | nil =>
          rw [List.append_nil] at hrest
          obtain ⟨idx, track, hidx, htrack, hfirst, hsecond⟩ :=
            hcorners' [] c after (by simpa using hafter.symm)
          simp only [List.not_mem_nil, or_false, hiff, hrest] at hfirst hsecond
          exact ⟨idx, track, hidx, htrack, hfirst, hsecond⟩
      | cons d rest =>
          obtain ⟨rfl, rfl⟩ := List.cons.inj hafter
          exact hcorners before c rest hrest
  · rw [hiff', hiff, List.mem_append, or_assoc]

end Grows

/-- Corners are on the layers of the guides. -/
theorem CornersOf.exists_same_layer {S : GuideCell → Prop} {corners : List GuideCell}
    (h : CornersOf S corners) : ∀ c ∈ corners, ∃ d, S d ∧ d.layer = c.layer := by
  induction corners using List.reverseRecOn with
  | nil => exact fun c hc => absurd hc List.not_mem_nil
  | append_singleton corners last ih =>
      have hbefore := ih fun before c after hsplit =>
        h before c (after ++ [last]) (by simp [hsplit])
      intro c hc
      rcases List.mem_append.mp hc with hc | hc
      · exact hbefore c hc
      · obtain rfl := List.mem_singleton.mp hc
        obtain ⟨idx, track, -, -, hfirst, -⟩ := h corners c [] rfl
        rcases hfirst with hfirst | hfirst
        · exact ⟨_, hfirst, rfl⟩
        · obtain ⟨d, hd, hlayer⟩ := hbefore _ hfirst
          exact ⟨d, hd, hlayer⟩

/-- One insertion at a corner. -/
theorem grows_insertAt {intvs : LayerSpans} {layer : Nat} {track i : Int}
    (hguide : IsGuide intvs ⟨layer, track, i⟩) {track' : Int}
    (htrack : track' = track + 1 ∨ track = track' + 1)
    (hacross : IsGuide intvs ⟨layer, track', i + 1⟩) :
    Grows intvs (insertAt intvs layer track (step i)) := by
  refine ⟨length_insertAt .., [⟨layer, track, i + 1⟩], fun before c after hsplit => ?_, fun c => ?_⟩
  · cases before with
    | nil =>
        obtain ⟨rfl, -⟩ := List.cons.inj hsplit
        exact ⟨i, track', .inr rfl, htrack, .inl hguide, .inl hacross⟩
    | cons d before => simp at hsplit
  · rw [isGuide_insertAt, List.mem_singleton]
    constructor
    · rintro (⟨-, rfl, rfl, hlower, hupper⟩ | hc)
      · rcases eq_or_lt_of_le hlower with heq | hlt
        · left
          obtain rfl : i = c.idx := heq
          exact hguide
        · right
          obtain ⟨l, t, x⟩ := c
          have hx : x = i + 1 := le_antisymm hupper hlt
          rw [hx]
      · exact .inl hc
    · rintro (hc | rfl)
      · exact .inr hc
      · exact .inl ⟨isGuide_lt hguide, rfl, rfl, by simp [step], le_rfl⟩

theorem connectCorner_grows {layer : Nat} {curr prev : Int} (htracks : curr = prev + 1)
    {intv1 intv2 : Span} {intvs : LayerSpans}
    (h1 : ∀ i, intv1.lower ≤ i → i ≤ intv1.upper → IsGuide intvs ⟨layer, curr, i⟩)
    (h2 : ∀ i, intv2.lower ≤ i → i ≤ intv2.upper → IsGuide intvs ⟨layer, prev, i⟩) :
    Grows intvs (connectCorner layer curr prev intv1 intv2 intvs) := by
  rw [connectCorner]
  split_ifs with hmeet hupper hlower
  · exact Grows.refl intvs
  · refine grows_insertAt (h1 _ intv1.proper le_rfl) (.inr htracks) ?_
    rw [hupper.1]
    exact h2 _ le_rfl intv2.proper
  · refine grows_insertAt (h2 _ intv2.proper le_rfl) (.inl htracks) ?_
    rw [hlower.1]
    exact h1 _ le_rfl intv1.proper
  · exact Grows.refl intvs

theorem nextSpan_guide {intvs : LayerSpans} {layer : Nat} {track : Int} {last : Option Span}
    {s : Span} (h : nextSpan (spansAt intvs layer track) last = some s) :
    ∀ i, s.lower ≤ i → i ≤ s.upper → IsGuide intvs ⟨layer, track, i⟩ := by
  intro i hlower hupper
  exact SpanSet.contains_iff.mpr ⟨s, List.mem_of_find?_eq_some h, hlower, hupper⟩

theorem connectCornersPrev_grows {layer : Nat} {curr prev : Int} (htracks : curr = prev + 1)
    {intv1 : Span} : ∀ (fuel : Nat) (last : Option Span) (intvs : LayerSpans),
      (∀ i, intv1.lower ≤ i → i ≤ intv1.upper → IsGuide intvs ⟨layer, curr, i⟩) →
      Grows intvs (connectCornersPrev layer curr prev intv1 fuel last intvs)
  | 0, last, intvs, _ => Grows.refl intvs
  | fuel + 1, last, intvs, h1 => by
      rw [connectCornersPrev]
      split
      next => exact Grows.refl intvs
      next intv2 hnext =>
        have hstep := connectCorner_grows htracks h1 (nextSpan_guide hnext)
        exact hstep.trans (connectCornersPrev_grows htracks fuel _ _
          fun i hlower hupper => hstep.subset (h1 i hlower hupper))

theorem connectCornersCurr_grows {layer : Nat} {curr prev : Int} (htracks : curr = prev + 1) :
    ∀ (fuel : Nat) (last : Option Span) (intvs : LayerSpans),
      Grows intvs (connectCornersCurr layer curr prev fuel last intvs)
  | 0, last, intvs => Grows.refl intvs
  | fuel + 1, last, intvs => by
      rw [connectCornersCurr]
      split
      next => exact Grows.refl intvs
      next intv1 hnext =>
        exact (connectCornersPrev_grows htracks _ _ _ (nextSpan_guide hnext)).trans
          (connectCornersCurr_grows htracks fuel _ _)

theorem connectCornersTracks_grows {layer : Nat} : ∀ (prev : Int) (tracks : List Int)
    (intvs : LayerSpans), Grows intvs (connectCornersTracks layer prev tracks intvs)
  | _, [], intvs => Grows.refl intvs
  | prev, curr :: tracks, intvs => by
      rw [connectCornersTracks]
      refine Grows.trans ?_ (connectCornersTracks_grows curr tracks _)
      split
      next htracks => exact connectCornersCurr_grows htracks _ _ _
      next => exact Grows.refl intvs

theorem connectCorners_grows (intvs : LayerSpans) : Grows intvs (connectCorners intvs) := by
  have hfold : ∀ (layers : List Nat) (intvs : LayerSpans),
      Grows intvs (layers.foldl connectCornersLayer intvs) := by
    intro layers
    induction layers with
    | nil => exact Grows.refl
    | cons layer layers ih =>
        exact fun intvs => (connectCornersTracks_grows _ _ _).trans (ih _)
  exact hfold _ intvs

end OpenRoad.Drt

/-!
The bridges over guides that touch. Every interval two neighbouring tracks share has a bridge on a
layer two apart or is given one, so a path goes along the one track, over the bridge and back along
the other track.
-/

namespace OpenRoad.Drt

open JoinedSpans (Span SpanSet)
open LayerSpans GuideCell

/-! ### Guides side by side -/

theorem isGuide_of_mem {intvs : LayerSpans} {layer : Nat} {entry : Int × SpanSet}
    (hentry : entry ∈ (intvs.getD layer OrderedMap.empty).entries) {i : Int}
    (hi : entry.2.contains i = true) : IsGuide intvs ⟨layer, entry.1, i⟩ := by
  rw [IsGuide, spansAt, spansOf, OrderedMap.find?_eq_some.mpr hentry]
  exact hi

theorem exists_entry_of_isGuide {intvs : LayerSpans} {c : GuideCell} (h : IsGuide intvs c) :
    ∃ set, (c.track, set) ∈ (intvs.getD c.layer OrderedMap.empty).entries ∧
      set.contains c.idx = true := by
  rw [IsGuide, spansAt, spansOf] at h
  cases hfind : (intvs.getD c.layer OrderedMap.empty).find? c.track with
  | none =>
      rw [hfind] at h
      exact absurd h (by simp)
  | some set =>
      rw [hfind] at h
      exact ⟨set, OrderedMap.find?_eq_some.mp hfind, h⟩

/-- The tracks of a pair are neighbours, and both have guides over its interval. -/
structure Touching.Sound (intvs : LayerSpans) (t : Touching) : Prop where
  layer_lt : t.layer < intvs.length
  next : t.curr = t.prev + 1
  prev_guide : ∀ i, t.intv.lower ≤ i → i ≤ t.intv.upper → IsGuide intvs ⟨t.layer, t.prev, i⟩
  curr_guide : ∀ i, t.intv.lower ≤ i → i ≤ t.intv.upper → IsGuide intvs ⟨t.layer, t.curr, i⟩

theorem sound_of_mem_touching {intvs : LayerSpans} {t : Touching} (ht : t ∈ touching intvs) :
    t.Sound intvs := by
  rw [touching, List.mem_flatMap] at ht
  obtain ⟨layer, hlayer, ht⟩ := ht
  rw [touchingOnLayer, List.mem_flatMap] at ht
  obtain ⟨⟨prev, curr⟩, hpair, ht⟩ := ht
  obtain ⟨hprev, hcurr⟩ := List.of_mem_zip hpair
  dsimp only at ht
  split at ht
  next hnext =>
    obtain ⟨intv, hintv, rfl⟩ := List.mem_map.mp ht
    exact
      { layer_lt := List.mem_range.mp hlayer
        next := hnext
        prev_guide := fun i hlower hupper =>
          isGuide_of_mem hprev (SpanSet.mem_inter hintv hlower hupper).2
        curr_guide := fun i hlower hupper =>
          isGuide_of_mem (List.mem_of_mem_tail hcurr) (SpanSet.mem_inter hintv hlower hupper).1 }
  next => exact absurd ht List.not_mem_nil

theorem exists_mem_touching {intvs : LayerSpans} {a b : GuideCell} (ha : IsGuide intvs a)
    (hb : IsGuide intvs b) (hab : a.Touches b) :
    ∃ t ∈ touching intvs, t.layer = a.layer ∧ t.prev = a.track ∧ t.curr = b.track ∧
      t.intv.lower ≤ a.idx ∧ a.idx ≤ t.intv.upper := by
  obtain ⟨hlayer, htrack, hidx⟩ := hab
  obtain ⟨seta, hmema, hina⟩ := exists_entry_of_isGuide ha
  obtain ⟨setb, hmemb, hinb⟩ := exists_entry_of_isGuide hb
  rw [← hlayer] at hmemb
  rw [← hidx] at hinb
  obtain ⟨before, after, hsplit⟩ := OrderedMap.split_of_adjacent hmema hmemb
    (by dsimp only; omega) (by dsimp only; omega)
  obtain ⟨intv, hintv, hlower, hupper⟩ := SpanSet.exists_mem_inter hinb hina
  refine ⟨⟨a.layer, a.track, b.track, intv⟩, ?_, rfl, rfl, rfl, hlower, hupper⟩
  refine List.mem_flatMap.mpr ⟨a.layer, List.mem_range.mpr (isGuide_lt ha), ?_⟩
  refine List.mem_flatMap.mpr ⟨((a.track, seta), (b.track, setb)), ?_, ?_⟩
  · rw [hsplit]
    exact OrderedMap.mem_zip_tail _ _ after before
  · dsimp only
    rw [if_pos htrack]
    exact List.mem_map.mpr ⟨intv, hintv, rfl⟩

/-! ### Bridges -/

/-- There is a bridge, a bridge is made, or there is no layer two apart. -/
theorem bridgeOver_cases {intvs : LayerSpans} {layer : Nat} (hlayer : layer < intvs.length)
    (prev curr : Int) (intv : Span) :
    (∃ bridgeLayer, (bridgeLayer = layer + 2 ∨ layer = bridgeLayer + 2) ∧
      hasGuideInterval intv.lower intv.upper curr prev bridgeLayer intvs = true ∧
      bridgeOver intvs layer prev curr intv = .ok none) ∨
    (∃ bridgeLayer, bridgeLayer < intvs.length ∧
      (bridgeLayer = layer + 2 ∨ layer = bridgeLayer + 2) ∧
      bridgeOver intvs layer prev curr intv =
        .ok (some (.init intv.lower prev curr bridgeLayer))) ∨
    (layer < 2 ∧ intvs.length ≤ layer + 2 ∧
      bridgeOver intvs layer prev curr intv = .error .noBridgeLayer) := by
  rw [bridgeOver]
  by_cases hlow : 2 ≤ layer
  · cases hlower : hasGuideInterval intv.lower intv.upper curr prev (layer - 2) intvs with
    | true => exact .inl ⟨layer - 2, .inr (by omega), hlower, by simp [hlow]⟩
    | false =>
        by_cases hup : layer + 2 < intvs.length
        · cases hupper : hasGuideInterval intv.lower intv.upper curr prev (layer + 2) intvs with
          | true => exact .inl ⟨layer + 2, .inl rfl, hupper, by simp [hlow, hup]⟩
          | false => exact .inr (.inl ⟨layer + 2, hup, .inl rfl, by simp [hlow, hup]⟩)
        · exact .inr (.inl ⟨layer - 2, by omega, .inr (by omega), by simp [hlow, hup]⟩)
  · by_cases hup : layer + 2 < intvs.length
    · cases hupper : hasGuideInterval intv.lower intv.upper curr prev (layer + 2) intvs with
      | true => exact .inl ⟨layer + 2, .inl rfl, hupper, by simp [hlow, hup]⟩
      | false => exact .inr (.inl ⟨layer + 2, hup, .inl rfl, by simp [hlow, hup]⟩)
    · exact .inr (.inr ⟨by omega, by omega, by simp [hlow, hup]⟩)

theorem bridgeOver_eq_none {intvs : LayerSpans} {layer : Nat} (hlayer : layer < intvs.length)
    {prev curr : Int} {intv : Span} (h : bridgeOver intvs layer prev curr intv = .ok none) :
    ∃ bridgeLayer track, (bridgeLayer = layer + 2 ∨ layer = bridgeLayer + 2) ∧
      intv.lower ≤ track ∧ track ≤ intv.upper ∧ IsGuide intvs ⟨bridgeLayer, track, prev⟩ ∧
      IsGuide intvs ⟨bridgeLayer, track, curr⟩ := by
  rcases bridgeOver_cases hlayer prev curr intv with
    ⟨bridgeLayer, happart, hhas, -⟩ | ⟨bridgeLayer, -, -, hsome⟩ | ⟨-, -, herror⟩
  · rw [hasGuideInterval, List.any_eq_true] at hhas
    obtain ⟨entry, hentry, hhas⟩ := hhas
    simp only [Bool.and_eq_true, decide_eq_true_eq] at hhas
    obtain ⟨⟨⟨hlower, hupper⟩, hcurr⟩, hprev⟩ := hhas
    exact ⟨bridgeLayer, entry.1, happart, hlower, hupper, isGuide_of_mem hentry hprev,
      isGuide_of_mem hentry hcurr⟩
  · exact absurd (h.symm.trans hsome) (by simp)
  · exact absurd (h.symm.trans herror) (by simp)

theorem bridgeOver_eq_some {intvs : LayerSpans} {layer : Nat} (hlayer : layer < intvs.length)
    {prev curr : Int} {intv : Span} {bridge : BridgeGuide}
    (h : bridgeOver intvs layer prev curr intv = .ok (some bridge)) :
    ∃ bridgeLayer, bridgeLayer < intvs.length ∧
      (bridgeLayer = layer + 2 ∨ layer = bridgeLayer + 2) ∧
      bridge = .init intv.lower prev curr bridgeLayer := by
  rcases bridgeOver_cases hlayer prev curr intv with
    ⟨bridgeLayer, -, -, hnone⟩ | ⟨bridgeLayer, hlt, happart, hsome⟩ | ⟨-, -, herror⟩
  · exact absurd (h.symm.trans hnone) (by simp)
  · exact ⟨bridgeLayer, hlt, happart, Option.some.inj (Except.ok.inj (h.symm.trans hsome))⟩
  · exact absurd (h.symm.trans herror) (by simp)

theorem exists_bridgeOver {intvs : LayerSpans} {layer : Nat} (hlayer : layer < intvs.length)
    (hroom : 2 ≤ layer ∨ layer + 2 < intvs.length) (prev curr : Int) (intv : Span) :
    ∃ bridge, bridgeOver intvs layer prev curr intv = .ok bridge := by
  rcases bridgeOver_cases hlayer prev curr intv with
    ⟨_, _, _, hnone⟩ | ⟨_, _, _, hsome⟩ | ⟨hlow, hup, -⟩
  · exact ⟨_, hnone⟩
  · exact ⟨_, hsome⟩
  · omega

theorem bridgeGuides_spec {intvs : LayerSpans} : ∀ {ts : List Touching},
    (∀ t ∈ ts, t.layer < intvs.length ∧ (2 ≤ t.layer ∨ t.layer + 2 < intvs.length)) →
      ∃ bridges, bridgeGuides intvs ts = .ok bridges ∧
        (∀ t ∈ ts, ∃ bridge, bridgeOver intvs t.layer t.prev t.curr t.intv = .ok bridge ∧
          ∀ b ∈ bridge, b ∈ bridges) ∧
        ∀ b ∈ bridges, ∃ t ∈ ts, bridgeOver intvs t.layer t.prev t.curr t.intv = .ok (some b)
  | [], _ => ⟨[], rfl, by simp, by simp⟩
  | t :: ts, hroom => by
      obtain ⟨hfirst, hrest⟩ := List.forall_mem_cons.mp hroom
      obtain ⟨bridge, hbridge⟩ := exists_bridgeOver hfirst.1 hfirst.2 t.prev t.curr t.intv
      obtain ⟨bridges, hbridges, hall, hfrom⟩ := bridgeGuides_spec hrest
      refine ⟨bridge.toList ++ bridges, ?_, ?_, ?_⟩
      · rw [bridgeGuides, hbridge, hbridges]
      · refine List.forall_mem_cons.mpr ⟨⟨bridge, hbridge, fun b hb => ?_⟩, fun u hu => ?_⟩
        · exact List.mem_append_left _ (Option.mem_toList.mpr hb)
        · obtain ⟨bridge', hbridge', hmem⟩ := hall u hu
          exact ⟨bridge', hbridge', fun b hb => List.mem_append_right _ (hmem b hb)⟩
      · intro b hb
        rcases List.mem_append.mp hb with hb | hb
        · obtain rfl := Option.mem_def.mp (Option.mem_toList.mp hb)
          exact ⟨t, List.mem_cons_self, hbridge⟩
        · obtain ⟨u, hu, hover⟩ := hfrom b hb
          exact ⟨u, List.mem_cons_of_mem _ hu, hover⟩

theorem isGuide_insertBridges {c : GuideCell} : ∀ (bridges : List BridgeGuide) (intvs : LayerSpans),
    IsGuide (insertBridges intvs bridges) c ↔
      (∃ b ∈ bridges, b.layerNum < intvs.length ∧ c.layer = b.layerNum ∧ c.track = b.trackIdx ∧
        b.intv.lower ≤ c.idx ∧ c.idx ≤ b.intv.upper) ∨ IsGuide intvs c
  | [], intvs => by simp [insertBridges]
  | b :: bridges, intvs => by
      have ih := isGuide_insertBridges (c := c) bridges
        (insertAt intvs b.layerNum b.trackIdx b.intv)
      rw [length_insertAt, isGuide_insertAt] at ih
      rw [List.exists_mem_cons_iff, or_assoc, or_left_comm]
      exact ih

/-- Along one track, over the bridge and back along the other track. -/
theorem Touching.Sound.connected {mid out : LayerSpans} {t : Touching} (ht : t.Sound mid)
    (hkeep : ∀ c, IsGuide mid c → IsGuide out c) {bridgeLayer : Nat} {track i : Int}
    (happart : bridgeLayer = t.layer + 2 ∨ t.layer = bridgeLayer + 2)
    (htrack : t.intv.lower ≤ track ∧ track ≤ t.intv.upper)
    (hi : t.intv.lower ≤ i ∧ i ≤ t.intv.upper) (hprev : IsGuide out ⟨bridgeLayer, track, t.prev⟩)
    (hcurr : IsGuide out ⟨bridgeLayer, track, t.curr⟩) :
    Connected out ⟨t.layer, t.prev, i⟩ ⟨t.layer, t.curr, i⟩ := by
  have halongPrev : Connected out ⟨t.layer, t.prev, i⟩ ⟨t.layer, t.prev, track⟩ :=
    connected_of_span (fun x hlower hupper => hkeep _ (ht.prev_guide x hlower hupper)) hi htrack
  have halongCurr : Connected out ⟨t.layer, t.curr, track⟩ ⟨t.layer, t.curr, i⟩ :=
    connected_of_span (fun x hlower hupper => hkeep _ (ht.curr_guide x hlower hupper)) htrack hi
  have hup := halongPrev.tail
    ⟨hkeep _ (ht.prev_guide track htrack.1 htrack.2), hprev, .inr ⟨happart, rfl, rfl⟩⟩
  have hover := hup.tail ⟨hprev, hcurr, .inl ⟨rfl, rfl, .inl ht.next⟩⟩
  have hdown := hover.tail
    ⟨hcurr, hkeep _ (ht.curr_guide track htrack.1 htrack.2), .inr ⟨happart.symm, rfl, rfl⟩⟩
  exact hdown.trans halongCurr

/-- The second loop on guides that are on the layers of even number. -/
theorem insertBridges_spec {mid : LayerSpans} (hsize : 3 ≤ mid.length)
    (hrouting : ∀ c, IsGuide mid c → c.layer % 2 = 0) :
    ∃ bridges, bridgeGuides mid (touching mid) = .ok bridges ∧
      (∀ c, IsGuide mid c → IsGuide (insertBridges mid bridges) c) ∧
      (∀ a b, IsGuide mid a → IsGuide mid b → a.Touches b →
        Connected (insertBridges mid bridges) a b) ∧
      ∀ c, IsGuide (insertBridges mid bridges) c → IsGuide mid c ∨ Bridges (IsGuide mid) c := by
  obtain ⟨bridges, hbridges, hall, hfrom⟩ := @bridgeGuides_spec mid (touching mid)
    fun t ht => by
      have hsound := sound_of_mem_touching ht
      have hlt := hsound.layer_lt
      have heven : t.layer % 2 = 0 := hrouting _ (hsound.prev_guide _ le_rfl t.intv.proper)
      exact ⟨hlt, by omega⟩
  have hkeep : ∀ c, IsGuide mid c → IsGuide (insertBridges mid bridges) c := fun c hc =>
    (isGuide_insertBridges bridges mid).mpr (.inr hc)
  refine ⟨bridges, hbridges, hkeep, fun a b ha hb hab => ?_, fun c hc => ?_⟩
  · obtain ⟨t, ht, hlayer, hprev, hcurr, hlower, hupper⟩ := exists_mem_touching ha hb hab
    have hsound := sound_of_mem_touching ht
    have hlt := hsound.layer_lt
    have hends : a = ⟨t.layer, t.prev, a.idx⟩ ∧ b = ⟨t.layer, t.curr, a.idx⟩ := by
      obtain ⟨layerA, trackA, idxA⟩ := a
      obtain ⟨layerB, trackB, idxB⟩ := b
      obtain ⟨hab1, -, hab3⟩ := hab
      dsimp only at *
      simp [hlayer, hprev, hcurr, hab1, hab3]
    rw [hends.1, hends.2]
    obtain ⟨bridge, hover, hmem⟩ := hall t ht
    cases bridge with
    | none =>
        obtain ⟨bridgeLayer, track, happart, htl, htu, hgp, hgc⟩ := bridgeOver_eq_none hlt hover
        exact hsound.connected hkeep happart ⟨htl, htu⟩ ⟨hlower, hupper⟩ (hkeep _ hgp) (hkeep _ hgc)
    | some bridge =>
        obtain ⟨bridgeLayer, hbl, happart, rfl⟩ := bridgeOver_eq_some hlt hover
        have hnew : ∀ i, t.prev ≤ i → i ≤ t.curr →
            IsGuide (insertBridges mid bridges) ⟨bridgeLayer, t.intv.lower, i⟩ := by
          intro i hpi hic
          exact (isGuide_insertBridges bridges mid).mpr (.inl ⟨_, hmem _ rfl, hbl, rfl, rfl,
            min_le_iff.mpr (.inl hpi), le_max_iff.mpr (.inr hic)⟩)
        have hnext := hsound.next
        exact hsound.connected hkeep happart ⟨le_rfl, t.intv.proper⟩ ⟨hlower, hupper⟩
          (hnew _ le_rfl (by omega)) (hnew _ (by omega) le_rfl)
  · rcases (isGuide_insertBridges bridges mid).mp hc with ⟨b, hb, -, hcl, hct, hlower, hupper⟩ | hc
    · right
      obtain ⟨t, ht, hover⟩ := hfrom b hb
      have hsound := sound_of_mem_touching ht
      have hnext := hsound.next
      obtain ⟨bridgeLayer, -, happart, rfl⟩ := bridgeOver_eq_some hsound.layer_lt hover
      dsimp only [BridgeGuide.init] at hcl hct hlower hupper
      refine ⟨⟨t.layer, t.prev, t.intv.lower⟩, ⟨t.layer, t.curr, t.intv.lower⟩,
        hsound.prev_guide _ le_rfl t.intv.proper, hsound.curr_guide _ le_rfl t.intv.proper,
        ⟨rfl, hnext, rfl⟩, ?_, hct, ?_⟩
      · dsimp only
        omega
      · dsimp only
        omega
    · exact .inl hc

/-! ### The whole function -/

/-- The routing layers have the even numbers. -/
def OnRoutingLayers (intvs : LayerSpans) : Prop := ∀ c, IsGuide intvs c → c.layer % 2 = 0

/-- Guides that touch are connected and no guide is removed. Every cell that is added completes a
corner with the cells before it or is one of a bridge over two cells that touch. -/
theorem addTouchingGuidesBridges_spec {intvs : LayerSpans} (hsize : 3 ≤ intvs.length)
    (hrouting : OnRoutingLayers intvs) :
    ∃ out corners, addTouchingGuidesBridges intvs = .ok out ∧
      (∀ c, IsGuide intvs c → IsGuide out c) ∧
      (∀ a b, IsGuide intvs a → IsGuide intvs b → a.Touches b ∨ b.Touches a →
        Connected out a b) ∧
      CornersOf (IsGuide intvs) corners ∧
      ∀ c, IsGuide out c → IsGuide intvs c ∨ c ∈ corners ∨
        Bridges (fun d => IsGuide intvs d ∨ d ∈ corners) c := by
  obtain ⟨hlength, corners, hcorners, hiff⟩ := connectCorners_grows intvs
  have hmid : ∀ c, IsGuide intvs c → IsGuide (connectCorners intvs) c := fun c hc =>
    (hiff c).mpr (.inl hc)
  have heven : OnRoutingLayers (connectCorners intvs) := by
    intro c hc
    rcases (hiff c).mp hc with hc | hc
    · exact hrouting c hc
    · obtain ⟨d, hd, hlayer⟩ := hcorners.exists_same_layer c hc
      rw [← hlayer]
      exact hrouting d hd
  obtain ⟨bridges, hbridges, hkeep, htouch, hadded⟩ := insertBridges_spec (hlength ▸ hsize) heven
  refine ⟨insertBridges (connectCorners intvs) bridges, corners, ?_, fun c hc => hkeep c (hmid c hc),
    fun a b ha hb hab => ?_, hcorners, fun c hc => ?_⟩
  · simp only [addTouchingGuidesBridges, hbridges]
  · rcases hab with hab | hba
    · exact htouch a b (hmid a ha) (hmid b hb) hab
    · exact (htouch b a (hmid b hb) (hmid a ha) hba).symm
  · rcases hadded c hc with hc | hc
    · exact ((hiff c).mp hc).imp id .inl
    · have heq : IsGuide (connectCorners intvs) = fun d => IsGuide intvs d ∨ d ∈ corners :=
        funext fun d => propext (hiff d)
      exact .inr (.inr (heq ▸ hc))

/-! ### A staircase -/

/-- On vertical and horizontal layers in turn. -/
def GuideCell.gcell (c : GuideCell) : Int × Int :=
  if c.layer % 4 = 2 then (c.idx, c.track) else (c.track, c.idx)

/-- In the same gcell or in one beside it. -/
def GuideCell.Beside (a b : GuideCell) : Prop :=
  (a.gcell.1 - b.gcell.1).natAbs + (a.gcell.2 - b.gcell.2).natAbs ≤ 1

instance (a b : GuideCell) : Decidable (a.Beside b) := inferInstanceAs (Decidable (_ ≤ _))

/-- Three single gcells on neighbouring tracks of a layer, the first one between the other two. -/
def stairs : LayerSpans :=
  initGuideIntervals (fun layer => layer % 4 = 2) [⟨2, 1, 0, 1, 0⟩, ⟨2, 0, 1, 0, 1⟩, ⟨2, 2, 2, 2, 2⟩]
    (List.replicate 5 OrderedMap.empty)

theorem not_isGuide_empty (n : Nat) (c : GuideCell) :
    ¬IsGuide (List.replicate n OrderedMap.empty) c := by
  intro hc
  have hempty : (List.replicate n (OrderedMap.empty : TrackSpans)).getD c.layer OrderedMap.empty =
      OrderedMap.empty := by
    rw [List.getD_eq_getElem?_getD, List.getElem?_replicate]
    split <;> rfl
  rw [IsGuide, spansAt, hempty] at hc
  exact absurd hc (by simp [spansOf, OrderedMap.find?, OrderedMap.empty])

theorem isGuide_stairs {c : GuideCell} :
    IsGuide stairs c ↔ c ∈ [(⟨2, 2, 2⟩ : GuideCell), ⟨2, 1, 0⟩, ⟨2, 0, 1⟩] := by
  have hinsert : stairs = insertAt (insertAt (insertAt (List.replicate 5 OrderedMap.empty) 2 0
      ⟨1, 1, le_rfl⟩) 2 1 ⟨0, 0, le_rfl⟩) 2 2 ⟨2, 2, le_rfl⟩ := rfl
  obtain ⟨layer, track, idx⟩ := c
  rw [hinsert, isGuide_insertAt, isGuide_insertAt, isGuide_insertAt]
  simp only [length_insertAt, List.length_replicate, not_isGuide_empty, List.mem_cons,
    GuideCell.mk.injEq, List.not_mem_nil, or_false]
  omega

theorem stairs_routing : OnRoutingLayers stairs := by
  intro c hc
  have hmem := isGuide_stairs.mp hc
  simp only [List.mem_cons, List.not_mem_nil, or_false] at hmem
  rcases hmem with rfl | rfl | rfl <;> rfl

theorem addTouchingGuidesBridges_stairs : ∃ out corners,
    addTouchingGuidesBridges stairs = .ok out ∧
      (∀ c, IsGuide stairs c → IsGuide out c) ∧
      (∀ a b, IsGuide stairs a → IsGuide stairs b → a.Touches b ∨ b.Touches a →
        Connected out a b) ∧
      CornersOf (IsGuide stairs) corners ∧
      ∀ c, IsGuide out c → IsGuide stairs c ∨ c ∈ corners ∨
        Bridges (fun d => IsGuide stairs d ∨ d ∈ corners) c :=
  addTouchingGuidesBridges_spec (by decide) stairs_routing

/-- The second corner is completed with the first one: the cell is beside one guide only. -/
theorem not_addTouchingGuidesBridges_original : ¬∀ intvs : LayerSpans, 3 ≤ intvs.length →
    OnRoutingLayers intvs → ∃ out, addTouchingGuidesBridges intvs = .ok out ∧
      (∀ c, IsGuide intvs c → IsGuide out c) ∧
      (∀ a b, IsGuide intvs a → IsGuide intvs b → a.Touches b ∨ b.Touches a →
        Connected out a b) ∧
      ∀ c, IsGuide out c → IsGuide intvs c ∨
        (∃ a b, IsGuide intvs a ∧ IsGuide intvs b ∧ a ≠ b ∧ c.Beside a ∧ c.Beside b) ∨
        CompletesCorner (IsGuide intvs) c := by
  intro h
  obtain ⟨out, hout, -, -, hadded⟩ := h stairs (by decide) stairs_routing
  have hcell : IsGuide out ⟨2, 1, 2⟩ := by
    have hrun : (addTouchingGuidesBridges stairs).toOption.map
        (fun out => (spansAt out 2 1).contains 2) = some true := by decide
    rw [hout] at hrun
    exact Option.some.inj hrun
  rcases hadded _ hcell with hc | ⟨a, b, ha, hb, hne, hca, hcb⟩ | ⟨idx, track, hidx, -, hfirst, -⟩
  · rw [isGuide_stairs] at hc
    exact absurd hc (by decide)
  · have hone : ∀ c ∈ [(⟨2, 2, 2⟩ : GuideCell), ⟨2, 1, 0⟩, ⟨2, 0, 1⟩],
        (⟨2, 1, 2⟩ : GuideCell).Beside c → c = ⟨2, 2, 2⟩ := by decide
    have heq := (hone a (isGuide_stairs.mp ha) hca).trans
      (hone b (isGuide_stairs.mp hb) hcb).symm
    exact hne heq
  · rw [isGuide_stairs] at hfirst
    simp only [List.mem_cons, GuideCell.mk.injEq, List.not_mem_nil, or_false] at hfirst
    dsimp only at hidx
    omega

end OpenRoad.Drt
