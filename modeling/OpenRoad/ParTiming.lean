import OpenRoad.MinFlood
import OpenRoad.ParHypergraph
import Mathlib.Data.Rat.Init
import Mathlib.Order.Bounds.Basic
import Mathlib.Tactic.Linarith

/-!
`UpdateTiming`: the extra delay of a cut lowers the slack of the arcs that are cut, and the lowered
slack is propagated through the timing graph. Slacks are exact.
-/

namespace OpenRoad.Par

inductive VertexType where
  | combStdCell | seqStdCell | hardMacro | port
  deriving DecidableEq

/-- The timing graph: the first vertex of a hyperedge is its source, the others are its sinks. -/
structure TimingGraph (d k : Nat) where
  graph : Hypergraph d k
  vertexType : Nat → VertexType

/-- The slacks of the arcs, `timing_arc_slacks`. -/
abbrev Slacks := Nat → ℚ

/-- `std::numeric_limits<float>::max()` -/
def fltMax : ℚ := (2 ^ 24 - 1) * 2 ^ 104

variable {d k : Nat}

namespace TimingGraph

variable (T : TimingGraph d k)

def isCombinational (v : Nat) : Bool := T.vertexType v = .combStdCell

/-- The hyperedges that `lambda_forward` looks at. -/
def forwardArcs (e : Nat) : List Nat :=
  ((T.graph.vertices e).filter T.isCombinational).flatMap T.graph.edges

/-- The hyperedges that `lambda_backward` looks at; it returns at the first that has a single
vertex. -/
def backwardArcs (e : Nat) : List Nat :=
  match T.graph.vertices e with
  | src :: _ :: _ =>
      if T.isCombinational src = true then
        ((T.graph.edges src).takeWhile fun pre => 1 < (T.graph.vertices pre).length).filter
          fun pre => (T.graph.vertices pre).head? ≠ some src
      else []
  | _ => []

/-- One arc of a cut hyperedge: its slack is lowered, and propagated forward and backward. -/
def propagateArc (fuel : Nat) (extraCutDelay : ℚ) (slacks : Slacks) (arc : Nat) : Option Slacks :=
  let slacks := Function.update slacks arc (slacks arc - extraCutDelay)
  (MinFlood.flood T.forwardArcs fuel arc slacks).bind (MinFlood.flood T.backwardArcs fuel arc)

def propagateArcs (fuel : Nat) (extraCutDelay : ℚ) (arcs : List Nat) (slacks : Slacks) :
    Option Slacks :=
  arcs.foldlM (T.propagateArc fuel extraCutDelay) slacks

end TimingGraph

/-- A hypergraph with the arcs of the timing graph that its hyperedges stand for, and the
hyperedges of its timing paths. -/
structure TimedHypergraph (d k : Nat) where
  hgraph : Hypergraph d k
  arcSet : Nat → List Nat
  pathEdges : List (List Nat)

namespace TimedHypergraph

variable (H : TimedHypergraph d k)

def cutArcs (solution : Partitions) : List Nat :=
  (H.hgraph.cutHyperedges solution).flatMap H.arcSet

/-- `hyperedge_timing_attr_`: the worst slack of the arcs of a hyperedge. -/
def hyperedgeTimingAttr (slacks : Slacks) (e : Nat) : ℚ :=
  (H.arcSet e).foldl (fun attr arc => min (slacks arc) attr) fltMax

def pathTimingSlack (slacks : Slacks) (path : List Nat) : ℚ :=
  path.foldl (fun slack e => min slack (H.hyperedgeTimingAttr slacks e)) fltMax

/-- `UpdateTiming`: the slacks of the hyperedges and of the timing paths. -/
def updateTiming (fuel : Nat) (T : TimingGraph d k) (extraCutDelay : ℚ) (slacks : Slacks)
    (solution : Partitions) : Option (List ℚ × List ℚ) :=
  (T.propagateArcs fuel extraCutDelay (H.cutArcs solution) slacks).map fun slacks =>
    ((List.range H.hgraph.numHyperedges).map (H.hyperedgeTimingAttr slacks),
      H.pathEdges.map (H.pathTimingSlack slacks))

end TimedHypergraph

/-! ### What is claimed -/

namespace TimingGraph

variable (T : TimingGraph d k)

/-- A sink of one arc is a combinational cell that drives the other. -/
def Feeds (b c : Nat) : Prop :=
  ∃ v ∈ (T.graph.vertices b).tail, T.isCombinational v = true ∧
    c ∈ T.graph.edges v ∧ (T.graph.vertices c).head? = some v

/-- Two arcs are on one combinational path. -/
def OnPath (a f : Nat) : Prop :=
  Relation.ReflTransGen T.Feeds a f ∨ Relation.ReflTransGen T.Feeds f a

/-- The slack of an arc is the minimum of its old slack and the lowered slacks of the cut arcs it
is on a combinational path with. -/
def IsExact (extraCutDelay : ℚ) (old : Slacks) (cuts : List Nat) (f : Nat) (slack : ℚ) : Prop :=
  IsLeast {y | y = old f ∨ ∃ a ∈ cuts, T.OnPath a f ∧ y = old a - extraCutDelay} slack

open Classical in
noncomputable def exactSlack (extraCutDelay : ℚ) (old : Slacks) : List Nat → Nat → ℚ
  | [], f => old f
  | a :: cuts, f =>
      if T.OnPath a f then min (exactSlack extraCutDelay old cuts f) (old a - extraCutDelay)
      else exactSlack extraCutDelay old cuts f

/-- The slack of an arc before a cut arc is propagated: that of the arc itself is lowered. -/
noncomputable def loweredAt (extraCutDelay : ℚ) (old : Slacks) (done : List Nat) (a : Nat) :
    Slacks :=
  Function.update (T.exactSlack extraCutDelay old done) a
    (T.exactSlack extraCutDelay old done a - extraCutDelay)

/-- The propagation from `a` reaches `f`: through arcs that share a combinational cell, all with
slacks above the lowered one. -/
def Floods (extraCutDelay : ℚ) (old : Slacks) (done : List Nat) (a f : Nat) : Prop :=
  MinFlood.Above T.forwardArcs (T.loweredAt extraCutDelay old done a)
    (T.exactSlack extraCutDelay old done a - extraCutDelay) a f

/-- When the propagation of a cut arc is exact, after those of the arcs before it. -/
structure CutExact (extraCutDelay : ℚ) (old : Slacks) (done : List Nat) (a : Nat) : Prop where
  own : extraCutDelay = 0 ∨ 0 < extraCutDelay ∧ T.exactSlack extraCutDelay old done a = old a
  flooded : ∀ f, T.Floods extraCutDelay old done a f →
    T.OnPath a f ∧ T.exactSlack extraCutDelay old done a = old a
  missed : ∀ f, f ≠ a → T.OnPath a f → ¬T.Floods extraCutDelay old done a f →
    T.exactSlack extraCutDelay old done f ≤ old a - extraCutDelay

variable {T} {extraCutDelay : ℚ} {old : Slacks}

theorem exactSlack_append (cuts : List Nat) (a f : Nat) :
    T.exactSlack extraCutDelay old (cuts ++ [a]) f =
      open Classical in
      if T.OnPath a f then min (T.exactSlack extraCutDelay old cuts f) (old a - extraCutDelay)
      else T.exactSlack extraCutDelay old cuts f := by
  classical
  induction cuts with
  | nil => simp [exactSlack]
  | cons b cuts ih =>
      rw [List.cons_append, exactSlack, ih, exactSlack]
      split <;> split <;> simp [min_right_comm]

theorem exactSlack_isExact (cuts : List Nat) (f : Nat) :
    T.IsExact extraCutDelay old cuts f (T.exactSlack extraCutDelay old cuts f) := by
  classical
  induction cuts with
  | nil => simp [IsExact, exactSlack, IsLeast, lowerBounds]
  | cons a cuts ih =>
      obtain ⟨hmem, hlower⟩ := ih
      have hlower' : ∀ y, (y = old f ∨ ∃ b ∈ cuts, T.OnPath b f ∧ y = old b - extraCutDelay) →
          T.exactSlack extraCutDelay old cuts f ≤ y := fun y hy => hlower hy
      have hkeep : T.exactSlack extraCutDelay old cuts f = old f ∨ ∃ b ∈ a :: cuts,
          T.OnPath b f ∧ T.exactSlack extraCutDelay old cuts f = old b - extraCutDelay := by
        rcases hmem with hmem | ⟨b, hb, hmem⟩
        · exact .inl hmem
        · exact .inr ⟨b, List.mem_cons_of_mem _ hb, hmem⟩
      rw [exactSlack]
      split
      next hpath =>
        refine ⟨?_, fun y hy => ?_⟩
        · rcases min_choice (T.exactSlack extraCutDelay old cuts f) (old a - extraCutDelay) with
            hmin | hmin
          · rw [hmin]
            exact hkeep
          · rw [hmin]
            exact .inr ⟨a, List.mem_cons_self .., hpath, rfl⟩
        · rcases hy with hy | ⟨b, hb, hy⟩
          · exact (min_le_left _ _).trans (hlower' y (.inl hy))
          · rcases List.mem_cons.mp hb with rfl | hb
            · exact hy.2 ▸ min_le_right _ _
            · exact (min_le_left _ _).trans (hlower' y (.inr ⟨b, hb, hy⟩))
      next hpath =>
        refine ⟨hkeep, fun y hy => ?_⟩
        rcases hy with hy | ⟨b, hb, hy⟩
        · exact hlower' y (.inl hy)
        · rcases List.mem_cons.mp hb with rfl | hb
          · exact absurd hy.1 hpath
          · exact hlower' y (.inr ⟨b, hb, hy⟩)

theorem isExact_iff {cuts : List Nat} {f : Nat} {slack : ℚ} :
    T.IsExact extraCutDelay old cuts f slack ↔ slack = T.exactSlack extraCutDelay old cuts f := by
  constructor
  · intro h
    exact h.unique (exactSlack_isExact cuts f)
  · rintro rfl
    exact exactSlack_isExact cuts f

/-! ### One cut arc -/

theorem forwardArcs_subset (e : Nat) : ∀ f ∈ T.forwardArcs e, f ∈ T.graph.vind.toFinset := by
  intro f hf
  obtain ⟨v, -, hv⟩ := List.mem_flatMap.mp hf
  exact List.mem_toFinset.mpr (List.mem_of_mem_drop (List.mem_of_mem_take hv))

/-- Whatever is looked at backward has been looked at forward. -/
theorem backwardArcs_subset (e : Nat) : ∀ f ∈ T.backwardArcs e, f ∈ T.forwardArcs e := by
  intro f hf
  rw [backwardArcs] at hf
  split at hf
  next src v rest heq =>
    split at hf
    next hcomb =>
      have hedge : f ∈ T.graph.edges src :=
        (List.takeWhile_subset _) (List.mem_of_mem_filter hf)
      refine List.mem_flatMap.mpr ⟨src, List.mem_filter.mpr ⟨?_, hcomb⟩, hedge⟩
      rw [heq]
      exact List.mem_cons_self ..
    next => exact absurd hf (by simp)
  next => exact absurd hf (by simp)

/-- The fuel that is always enough. -/
def enoughFuel (T : TimingGraph d k) : Nat := T.graph.vind.toFinset.card + 1

theorem propagateArc_spec {fuel : Nat} (hfuel : T.enoughFuel ≤ fuel) (slacks : Slacks) (a : Nat) :
    ∃ slacks', T.propagateArc fuel extraCutDelay slacks a = some slacks' ∧
      slacks' a = slacks a - extraCutDelay ∧
      ∀ f, f ≠ a →
        (MinFlood.Above T.forwardArcs (Function.update slacks a (slacks a - extraCutDelay))
          (slacks a - extraCutDelay) a f → slacks' f = slacks a - extraCutDelay) ∧
        (¬MinFlood.Above T.forwardArcs (Function.update slacks a (slacks a - extraCutDelay))
          (slacks a - extraCutDelay) a f → slacks' f = slacks f) := by
  generalize hlow : Function.update slacks a (slacks a - extraCutDelay) = low
  have hself : low a = slacks a - extraCutDelay := by
    rw [← hlow, Function.update_self]
  have hother : ∀ f, f ≠ a → low f = slacks f := by
    intro f hf
    rw [← hlow, Function.update_of_ne hf]
  have hcard : (MinFlood.above T.graph.vind.toFinset (low a) low).card < fuel := by
    have hle := Finset.card_le_card
      (Finset.filter_subset (fun f => low a < low f) T.graph.vind.toFinset)
    rw [enoughFuel] at hfuel
    exact lt_of_le_of_lt hle hfuel
  obtain ⟨slacks', hforward⟩ := MinFlood.flood_total forwardArcs_subset fuel a low hcard
  obtain ⟨hlowered, hnext⟩ := MinFlood.flood_spec fuel a low slacks' hforward
  have hself' : slacks' a = low a := hlowered.keeps rfl
  have hbackward : MinFlood.flood T.backwardArcs fuel a slacks' = some slacks' := by
    refine MinFlood.flood_of_le (lt_of_le_of_lt (Nat.zero_le _) hcard) fun f hf => ?_
    rw [hself']
    exact hnext f (backwardArcs_subset a f hf)
  refine ⟨slacks', ?_, hself'.trans hself, fun f hf => ?_⟩
  · simp only [propagateArc, hlow, hforward, Option.bind_some, hbackward]
  · have hflood := MinFlood.flood_eq hforward f
    rw [hself, hother f hf] at hflood
    exact hflood

theorem exactSlack_le_old (cuts : List Nat) (f : Nat) :
    T.exactSlack extraCutDelay old cuts f ≤ old f :=
  (exactSlack_isExact cuts f).2 (.inl rfl)

theorem exactSlack_append_onPath {cuts : List Nat} {a f : Nat} (h : T.OnPath a f) :
    T.exactSlack extraCutDelay old (cuts ++ [a]) f =
      min (T.exactSlack extraCutDelay old cuts f) (old a - extraCutDelay) := by
  rw [exactSlack_append, if_pos h]

theorem exactSlack_append_offPath {cuts : List Nat} {a f : Nat} (h : ¬T.OnPath a f) :
    T.exactSlack extraCutDelay old (cuts ++ [a]) f = T.exactSlack extraCutDelay old cuts f := by
  rw [exactSlack_append, if_neg h]

theorem Floods.lt {done : List Nat} {a f : Nat} (h : T.Floods extraCutDelay old done a f) :
    f ≠ a ∧ T.exactSlack extraCutDelay old done a - extraCutDelay <
      T.exactSlack extraCutDelay old done f := by
  have hlt := MinFlood.Above.lt h
  have hne : f ≠ a := by
    rintro rfl
    rw [loweredAt, Function.update_self] at hlt
    exact lt_irrefl _ hlt
  rw [loweredAt, Function.update_of_ne hne] at hlt
  exact ⟨hne, hlt⟩

/-- From exact slacks the propagation of a cut arc gives exact slacks just when it is exact. -/
theorem propagateArc_exact_iff {fuel : Nat} (hfuel : T.enoughFuel ≤ fuel) (done : List Nat)
    (a : Nat) {slacks' : Slacks}
    (h : T.propagateArc fuel extraCutDelay (T.exactSlack extraCutDelay old done) a =
      some slacks') :
    (∀ f, slacks' f = T.exactSlack extraCutDelay old (done ++ [a]) f) ↔
      T.CutExact extraCutDelay old done a := by
  obtain ⟨slacks'', heq, hself, hother⟩ := @propagateArc_spec d k T extraCutDelay fuel hfuel
    (T.exactSlack extraCutDelay old done) a
  obtain rfl := Option.some.inj (h.symm.trans heq)
  have hpath : T.OnPath a a := .inl .refl
  have hle := @exactSlack_le_old d k T extraCutDelay old done a
  constructor
  · intro hexact
    refine ⟨?_, fun f hf => ?_, fun f hne hf hnot => ?_⟩
    · have ha := hself.symm.trans (hexact a)
      rw [exactSlack_append_onPath hpath] at ha
      rcases min_choice (T.exactSlack extraCutDelay old done a) (old a - extraCutDelay) with
        hmin | hmin
      · left
        linarith
      · rcases eq_or_ne extraCutDelay 0 with hzero | hzero
        · exact .inl hzero
        · have hmin' := min_le_left (T.exactSlack extraCutDelay old done a) (old a - extraCutDelay)
          refine .inr ⟨lt_of_le_of_ne ?_ (Ne.symm hzero), ?_⟩ <;> linarith
    · obtain ⟨hne, hlt⟩ := hf.lt
      have hvalue := ((hother f hne).1 hf).symm.trans (hexact f)
      by_cases hon : T.OnPath a f
      · refine ⟨hon, ?_⟩
        rw [exactSlack_append_onPath hon] at hvalue
        rcases min_choice (T.exactSlack extraCutDelay old done f) (old a - extraCutDelay) with
          hmin | hmin
        · exact absurd (hvalue.trans hmin) hlt.ne
        · linarith
      · rw [exactSlack_append_offPath hon] at hvalue
        exact absurd hvalue hlt.ne
    · have hvalue := ((hother f hne).2 hnot).symm.trans (hexact f)
      rw [exactSlack_append_onPath hf] at hvalue
      exact hvalue.le.trans (min_le_right _ _)
  · intro hexact f
    rcases eq_or_ne f a with rfl | hne
    · rw [hself, exactSlack_append_onPath hpath]
      rcases hexact.own with hzero | ⟨hpos, hown⟩
      · subst hzero
        rw [sub_zero, sub_zero]
        exact (min_eq_left hle).symm
      · rw [hown]
        exact (min_eq_right (by linarith)).symm
    · by_cases hflood : T.Floods extraCutDelay old done a f
      · obtain ⟨hon, hown⟩ := hexact.flooded f hflood
        have hlt := hflood.lt.2
        rw [(hother f hne).1 hflood, exactSlack_append_onPath hon, hown]
        rw [hown] at hlt
        exact (min_eq_right hlt.le).symm
      · rw [(hother f hne).2 hflood]
        by_cases hon : T.OnPath a f
        · rw [exactSlack_append_onPath hon, min_eq_left (hexact.missed f hne hon hflood)]
        · rw [exactSlack_append_offPath hon]

/-! ### All cut arcs -/

theorem propagateArcs_append (fuel : Nat) (done : List Nat) (a : Nat) (slacks : Slacks) :
    T.propagateArcs fuel extraCutDelay (done ++ [a]) slacks =
      (T.propagateArcs fuel extraCutDelay done slacks).bind
        fun slacks => T.propagateArc fuel extraCutDelay slacks a := by
  rw [propagateArcs, List.foldlM_append]
  simp [propagateArcs]

theorem propagateArcs_total {fuel : Nat} (hfuel : T.enoughFuel ≤ fuel) (arcs : List Nat)
    (slacks : Slacks) : ∃ slacks', T.propagateArcs fuel extraCutDelay arcs slacks = some slacks' := by
  induction arcs using List.reverseRecOn with
  | nil => exact ⟨slacks, rfl⟩
  | append_singleton arcs a ih =>
      obtain ⟨slacks₁, h₁⟩ := ih
      obtain ⟨slacks', h, -⟩ := @propagateArc_spec d k T extraCutDelay fuel hfuel slacks₁ a
      exact ⟨slacks', by rw [propagateArcs_append, h₁]; exact h⟩

/-- The slacks are exact after every cut arc. -/
def PropagatesExactly (T : TimingGraph d k) (fuel : Nat) (extraCutDelay : ℚ) (old : Slacks)
    (cuts : List Nat) : Prop :=
  ∀ done rest, cuts = done ++ rest →
    ∃ slacks, T.propagateArcs fuel extraCutDelay done old = some slacks ∧
      ∀ f, T.IsExact extraCutDelay old done f (slacks f)

theorem propagatesExactly_iff {fuel : Nat} (hfuel : T.enoughFuel ≤ fuel) (cuts : List Nat) :
    T.PropagatesExactly fuel extraCutDelay old cuts ↔
      ∀ done a rest, cuts = done ++ a :: rest → T.CutExact extraCutDelay old done a := by
  simp only [PropagatesExactly, isExact_iff]
  constructor
  · rintro h done a rest rfl
    obtain ⟨slacks, hrun, hexact⟩ := h done (a :: rest) rfl
    obtain ⟨slacks', hrun', hexact'⟩ := h (done ++ [a]) rest (by simp)
    obtain rfl : slacks = T.exactSlack extraCutDelay old done := funext hexact
    rw [propagateArcs_append, hrun] at hrun'
    exact (propagateArc_exact_iff hfuel done a hrun').mp hexact'
  · intro h done
    induction done using List.reverseRecOn with
    | nil => exact fun rest _ => ⟨old, rfl, fun _ => rfl⟩
    | append_singleton done a ih =>
        intro rest hcuts
        have hcuts' : cuts = done ++ a :: rest := by rw [hcuts, List.append_assoc]; rfl
        obtain ⟨slacks, hrun, hexact⟩ := ih (a :: rest) hcuts'
        obtain rfl : slacks = T.exactSlack extraCutDelay old done := funext hexact
        obtain ⟨slacks', hstep, -⟩ := @propagateArc_spec d k T extraCutDelay fuel hfuel
          (T.exactSlack extraCutDelay old done) a
        refine ⟨slacks', ?_, (propagateArc_exact_iff hfuel done a hstep).mpr (h done a rest hcuts')⟩
        rw [propagateArcs_append, hrun]
        exact hstep

end TimingGraph

namespace TimedHypergraph

variable {T : TimingGraph d k} {H : TimedHypergraph d k}

theorem hyperedgeTimingAttr_isLeast (slacks : Slacks) (e : Nat) :
    IsLeast {y | y = fltMax ∨ ∃ arc ∈ H.arcSet e, y = slacks arc}
      (H.hyperedgeTimingAttr slacks e) := by
  rw [hyperedgeTimingAttr]
  induction H.arcSet e using List.reverseRecOn with
  | nil => simp [IsLeast, lowerBounds]
  | append_singleton arcs arc ih =>
      obtain ⟨hmem, hlower⟩ := ih
      rw [List.foldl_append, List.foldl_cons, List.foldl_nil]
      refine ⟨?_, fun y hy => ?_⟩
      · rcases min_choice (slacks arc)
          (arcs.foldl (fun attr arc => min (slacks arc) attr) fltMax) with hmin | hmin
        · exact .inr ⟨arc, by simp, hmin⟩
        · rw [hmin]
          rcases hmem with hmem | ⟨b, hb, hmem⟩
          · exact .inl hmem
          · exact .inr ⟨b, List.mem_append_left _ hb, hmem⟩
      · rcases hy with rfl | ⟨b, hb, rfl⟩
        · exact (min_le_right _ _).trans (hlower (.inl rfl))
        · rcases List.mem_append.mp hb with hb | hb
          · exact (min_le_right _ _).trans (hlower (.inr ⟨b, hb, rfl⟩))
          · rw [List.mem_singleton.mp hb]
            exact min_le_left _ _

/-- `UpdateTiming` returns, and the slacks of the arcs are exact after each cut arc just when the
propagation of each is exact; then the slack of a hyperedge is the worst exact slack of its arcs. -/
theorem updateTiming_exact_iff (H : TimedHypergraph d k) (T : TimingGraph d k) (extraCutDelay : ℚ)
    (old : Slacks) (solution : Partitions) :
    ∃ enough, ∀ fuel, enough ≤ fuel →
      ∃ out, H.updateTiming fuel T extraCutDelay old solution = some out ∧
        (T.PropagatesExactly fuel extraCutDelay old (H.cutArcs solution) ↔
          ∀ done a rest, H.cutArcs solution = done ++ a :: rest →
            T.CutExact extraCutDelay old done a) ∧
        (T.PropagatesExactly fuel extraCutDelay old (H.cutArcs solution) →
          ∃ slacks : Slacks,
            (∀ f, T.IsExact extraCutDelay old (H.cutArcs solution) f (slacks f)) ∧
            ∀ e < H.hgraph.numHyperedges, ∃ slack, out.1[e]? = some slack ∧
              IsLeast {y | y = fltMax ∨ ∃ arc ∈ H.arcSet e, y = slacks arc} slack) := by
  refine ⟨T.enoughFuel, fun fuel hfuel => ?_⟩
  obtain ⟨slacks, hrun⟩ := @TimingGraph.propagateArcs_total d k _ extraCutDelay fuel hfuel
    (H.cutArcs solution) old
  refine ⟨_, by rw [updateTiming, hrun]; rfl, TimingGraph.propagatesExactly_iff hfuel _,
    fun hexact => ?_⟩
  obtain ⟨slacks', hrun', hslacks⟩ := hexact (H.cutArcs solution) [] (List.append_nil _).symm
  obtain rfl := Option.some.inj (hrun.symm.trans hrun')
  exact ⟨slacks, hslacks, fun e he =>
    ⟨_, by simp [he], hyperedgeTimingAttr_isLeast slacks e⟩⟩

end TimedHypergraph

/-! ### A sibling input is lowered -/

/-- Two registers drive a gate that drives a third register. -/
def siblingGraph : Hypergraph 0 0 :=
  Hypergraph.make [[0, 2], [1, 2], [2, 3]] [0, 0, 0, 0] [0, 0, 0] []

def siblingTiming : TimingGraph 0 0 where
  graph := siblingGraph
  vertexType v := if v = 2 then .combStdCell else .seqStdCell

def siblingHypergraph : TimedHypergraph 0 0 where
  hgraph := siblingGraph
  arcSet e := [e]
  pathEdges := [[0, 2], [1, 2]]

/-- The first register is in a block of its own. -/
def siblingSolution : Partitions := fun v => if v = 0 then 1 else 0

theorem siblingTiming_feeds {a f : Nat} (h : Relation.ReflTransGen siblingTiming.Feeds a f) :
    f = a ∨ f = 2 := by
  induction h with
  | refl => exact .inl rfl
  | tail _ hstep ih =>
      right
      obtain ⟨v, hv, hcomb, hedge, hhead⟩ := hstep
      have hgate : v = 2 := by
        by_contra hne
        simp [TimingGraph.isCombinational, siblingTiming, hne] at hcomb
      subst hgate
      have hdriven : ∀ c ∈ siblingTiming.graph.edges 2,
          (siblingTiming.graph.vertices c).head? = some 2 → c = 2 := by decide
      exact hdriven _ hedge hhead

/-- The other input of the gate is on no path with the net that is cut, but its slack falls. -/
theorem not_timingExact :
    ∃ out, siblingHypergraph.updateTiming 10 siblingTiming 1 (fun e => if e = 0 then 5 else 9)
        siblingSolution = some out ∧
      siblingHypergraph.hgraph.cutHyperedges siblingSolution = [0] ∧
      out.1[1]? = some 4 ∧ ¬siblingTiming.OnPath 0 1 := by
  refine ⟨([4, 4, 4], [4, 4]), by decide +kernel, by decide, rfl, ?_⟩
  rintro (h | h)
  · rcases siblingTiming_feeds h with h | h <;> exact absurd h (by decide)
  · rcases siblingTiming_feeds h with h | h <;> exact absurd h (by decide)

end OpenRoad.Par
