import OpenRoad.DifferenceBounds
import OpenRoad.DplClump
import Mathlib.Tactic.Linarith

/-!
One clump after the other is merged. When each node comes behind the nodes to its left, a merge
leaves no overlap behind: a clump that is merged into another moves right by no more than it moved
left before, and what is inside a clump keeps its distances. That such distances exist at all times
is carried along as a solution of the bounds between the clumps.
-/

namespace OpenRoad.Dpl

namespace ClumpGraph

variable {G : ClumpGraph} {s : Clumps} {r l : Nat} {dist : Int}

/-! ### The worst overlap -/

/-- The gap between a node of clump `r` and a node to its left; negative where they overlap. -/
def diff (G : ClumpGraph) (s : Clumps) (v u : Nat) : Int := s.left v - (s.left u + G.width u)

/-- What is known after some pairs have been looked at. -/
def Worst (G : ClumpGraph) (s : Clumps) (r : Nat) (looked : List (Nat × Nat)) :
    Option (Int × Nat × Int) → Prop
  | none => ∀ p ∈ looked, s.ptr p.2 ≠ r → 0 ≤ G.diff s p.1 p.2
  | some (d, l, dist) => d < 0 ∧
      (∃ p ∈ looked, s.ptr p.2 = l ∧ l ≠ r ∧ d = G.diff s p.1 p.2 ∧
        dist = s.offset p.2 + G.width p.2 - s.offset p.1) ∧
      ∀ p ∈ looked, s.ptr p.2 ≠ r → d ≤ G.diff s p.1 p.2

theorem worst_lookLeft {looked : List (Nat × Nat)} {worst : Option (Int × Nat × Int)}
    (h : Worst G s r looked worst) {p : Nat × Nat} (hp : s.ptr p.1 = r) :
    Worst G s r (looked ++ [p]) (G.lookLeft s r worst p.1 p.2) := by
  have hdiff : (s.clump r).posn + s.offset p.1 -
      ((s.clump (s.ptr p.2)).posn + s.offset p.2 + G.width p.2) = G.diff s p.1 p.2 := by
    rw [← hp]
    rfl
  have hmem : ∀ {q : Nat × Nat}, q ∈ looked ++ [p] → q ∈ looked ∨ q = p := fun hq =>
    (List.mem_append.mp hq).imp_right List.mem_singleton.mp
  unfold lookLeft
  dsimp only
  rw [hdiff]
  by_cases hsame : s.ptr p.2 = r
  · rw [if_pos hsame]
    cases worst with
    | none =>
        intro q hq hne
        rcases hmem hq with hq | rfl
        · exact h q hq hne
        · exact absurd hsame hne
    | some w =>
        obtain ⟨hneg, ⟨q, hq, hrest⟩, hall⟩ := h
        refine ⟨hneg, ⟨q, List.mem_append_left _ hq, hrest⟩, fun q hq hne => ?_⟩
        rcases hmem hq with hq | rfl
        · exact hall q hq hne
        · exact absurd hsame hne
  · rw [if_neg hsame]
    split_ifs with hworse
    · obtain ⟨hneg, hless⟩ := hworse
      refine ⟨hneg, ⟨p, List.mem_append_right _ (List.mem_singleton_self _), rfl, hsame, rfl, rfl⟩,
        fun q hq hne => ?_⟩
      rcases hmem hq with hq | rfl
      · cases worst with
        | none => exact hneg.le.trans (h q hq hne)
        | some w => exact (hless w rfl).le.trans (h.2.2 q hq hne)
      · exact le_rfl
    · cases worst with
      | none =>
          intro q hq hne
          rcases hmem hq with hq | rfl
          · exact h q hq hne
          · exact not_lt.mp fun hneg => hworse ⟨hneg, fun w hw => nomatch hw⟩
      | some w =>
          obtain ⟨hneg, ⟨q, hq, hrest⟩, hall⟩ := h
          refine ⟨hneg, ⟨q, List.mem_append_left _ hq, hrest⟩, fun q hq hne => ?_⟩
          rcases hmem hq with hq | rfl
          · exact hall q hq hne
          · refine not_lt.mp fun hlt => hworse ⟨hlt.trans hneg, fun w' hw' => ?_⟩
            rw [← Option.some.inj hw']
            exact hlt

/-- The pairs that are looked at. -/
def leftPairs (G : ClumpGraph) (nodes : List Nat) : List (Nat × Nat) :=
  nodes.flatMap fun ndr => (G.incoming ndr).map fun ndl => (ndr, ndl)

theorem mem_leftPairs {nodes : List Nat} {v u : Nat} :
    (v, u) ∈ leftPairs G nodes ↔ v ∈ nodes ∧ u ∈ G.incoming v := by
  simp [leftPairs]

theorem violated_eq : G.violated s r =
    ((leftPairs G (s.clump r).nodes).foldl (fun worst p => G.lookLeft s r worst p.1 p.2) none).map
      Prod.snd := by
  unfold violated leftPairs
  rw [List.foldl_flatMap]
  simp only [List.foldl_map]

theorem worst_foldl (pairs : List (Nat × Nat)) (hpairs : ∀ p ∈ pairs, s.ptr p.1 = r) :
    Worst G s r pairs (pairs.foldl (fun worst p => G.lookLeft s r worst p.1 p.2) none) := by
  induction pairs using List.reverseRecOn with
  | nil => exact fun p hp => absurd hp List.not_mem_nil
  | append_singleton pairs p ih =>
      rw [List.foldl_append]
      exact worst_lookLeft (ih fun q hq => hpairs q (List.mem_append_left _ hq))
        (hpairs p (List.mem_append_right _ (List.mem_singleton_self _)))

theorem violated_none (hptr : ∀ v ∈ (s.clump r).nodes, s.ptr v = r) (h : G.violated s r = none)
    {v u : Nat} (hv : v ∈ (s.clump r).nodes) (hu : u ∈ G.incoming v) (hne : s.ptr u ≠ r) :
    s.left u + G.width u ≤ s.left v := by
  have hworst := @worst_foldl G s r (leftPairs G (s.clump r).nodes) fun p hp =>
    hptr p.1 (mem_leftPairs.mp hp).1
  rw [violated_eq, Option.map_eq_none_iff] at h
  rw [h] at hworst
  have hnonneg : 0 ≤ G.diff s v u := hworst (v, u) (mem_leftPairs.mpr ⟨hv, hu⟩) hne
  unfold diff at hnonneg
  omega

theorem violated_some (hptr : ∀ v ∈ (s.clump r).nodes, s.ptr v = r)
    (h : G.violated s r = some (l, dist)) :
    ∃ v ∈ (s.clump r).nodes, ∃ u ∈ G.incoming v, s.ptr u = l ∧ l ≠ r ∧ G.diff s v u < 0 ∧
      dist = s.offset u + G.width u - s.offset v ∧
      ∀ v' ∈ (s.clump r).nodes, ∀ u' ∈ G.incoming v', s.ptr u' ≠ r →
        G.diff s v u ≤ G.diff s v' u' := by
  have hworst := @worst_foldl G s r (leftPairs G (s.clump r).nodes) fun p hp =>
    hptr p.1 (mem_leftPairs.mp hp).1
  rw [violated_eq] at h
  obtain ⟨⟨d, w⟩, hfold, hw⟩ := Option.map_eq_some_iff.mp h
  obtain rfl : w = (l, dist) := hw
  rw [hfold] at hworst
  obtain ⟨hneg, ⟨⟨v, u⟩, hp, hl, hne, hd, hdist⟩, hall⟩ := hworst
  obtain ⟨hv, hu⟩ := mem_leftPairs.mp hp
  refine ⟨v, hv, u, hu, hl, hne, hd ▸ hneg, hdist, fun v' hv' u' hu' hne' => ?_⟩
  rw [← hd]
  exact hall (v', u') (mem_leftPairs.mpr ⟨hv', hu'⟩) hne'

/-! ### What merging two clumps changes -/

/-- The nodes of the clumps, and the mean that is the position of each. -/
structure Sound (ord : List Nat) (s : Clumps) : Prop where
  mem : ∀ c n, n ∈ (s.clump c).nodes ↔ n ∈ ord ∧ s.ptr n = c
  mean : ∀ c, (s.clump c).nodes ≠ [] →
    0 < (s.clump c).weight ∧ (s.clump c).posn = (s.clump c).wposn / (s.clump c).weight

section

variable {ord : List Nat} {n : Nat}

theorem Sound.ptr_of_mem (h : Sound ord s) {c : Nat} (hn : n ∈ (s.clump c).nodes) :
    s.ptr n = c := ((h.mem c n).mp hn).2

theorem mergeInto_ptr_of_eq (h : Sound ord s) (hn : n ∈ ord) (hptr : s.ptr n = r) :
    (s.mergeInto r l dist).ptr n = l := if_pos ((h.mem r n).mpr ⟨hn, hptr⟩)

theorem mergeInto_ptr_of_ne (h : Sound ord s) (hptr : s.ptr n ≠ r) :
    (s.mergeInto r l dist).ptr n = s.ptr n := if_neg fun hn => hptr (h.ptr_of_mem hn)

theorem mergeInto_offset_of_eq (h : Sound ord s) (hn : n ∈ ord) (hptr : s.ptr n = r) :
    (s.mergeInto r l dist).offset n = s.offset n + dist := if_pos ((h.mem r n).mpr ⟨hn, hptr⟩)

theorem mergeInto_offset_of_ne (h : Sound ord s) (hptr : s.ptr n ≠ r) :
    (s.mergeInto r l dist).offset n = s.offset n := if_neg fun hn => hptr (h.ptr_of_mem hn)

theorem mergeInto_clump_of_ne {c : Nat} (hl : c ≠ l) (hr : c ≠ r) :
    (s.mergeInto r l dist).clump c = s.clump c := (if_neg hl).trans (if_neg hr)

/-- How far the clump on the left moves left, if it moves at all. -/
def back (s : Clumps) (r l : Nat) (dist : Int) : Int :=
  (s.clump l).posn - ((s.mergeInto r l dist).clump l).posn

theorem mergeInto_left_of_ne (h : Sound ord s) (hl : s.ptr n ≠ l) (hr : s.ptr n ≠ r) :
    (s.mergeInto r l dist).left n = s.left n := by
  unfold Clumps.left
  rw [mergeInto_ptr_of_ne h hr, mergeInto_offset_of_ne h hr, mergeInto_clump_of_ne hl hr]

theorem mergeInto_left_l (h : Sound ord s) (hne : l ≠ r) (hl : s.ptr n = l) :
    (s.mergeInto r l dist).left n = s.left n - back s r l dist := by
  unfold Clumps.left back
  rw [mergeInto_ptr_of_ne h (hl ▸ hne), mergeInto_offset_of_ne h (hl ▸ hne), hl]
  omega

theorem mergeInto_left_r (h : Sound ord s) (hn : n ∈ ord) (hr : s.ptr n = r) :
    (s.mergeInto r l dist).left n =
      s.left n + ((s.clump l).posn + dist - (s.clump r).posn) - back s r l dist := by
  unfold Clumps.left back
  rw [mergeInto_ptr_of_eq h hn hr, mergeInto_offset_of_eq h hn hr, hr]
  omega

/-- A merge keeps the clumps sound. -/
theorem Sound.mergeInto (h : Sound ord s) (hne : l ≠ r) (hl : (s.clump l).nodes ≠ [])
    (hr : (s.clump r).nodes ≠ []) : Sound ord (s.mergeInto r l dist) where
  mem := fun c n => by
    by_cases hcl : c = l
    · subst hcl
      have hclump : ((s.mergeInto r c dist).clump c).nodes =
          (s.clump c).nodes ++ (s.clump r).nodes := congrArg Clump.nodes (if_pos rfl)
      rw [hclump, List.mem_append, h.mem, h.mem]
      by_cases hptr : s.ptr n = r
      · rw [hptr]
        refine ⟨fun hn => ?_, fun hn => Or.inr ⟨hn.1, rfl⟩⟩
        have hord : n ∈ ord := hn.elim And.left And.left
        exact ⟨hord, mergeInto_ptr_of_eq h hord hptr⟩
      · rw [mergeInto_ptr_of_ne h hptr]
        exact or_iff_left fun hn => hptr hn.2
    · by_cases hcr : c = r
      · subst hcr
        have hclump : ((s.mergeInto c l dist).clump c).nodes = [] :=
          congrArg Clump.nodes ((if_neg hcl).trans (if_pos rfl))
        rw [hclump]
        refine iff_of_false List.not_mem_nil fun ⟨hn, hptr⟩ => ?_
        by_cases heq : s.ptr n = c
        · exact hcl (hptr.symm.trans (mergeInto_ptr_of_eq h hn heq))
        · exact heq ((mergeInto_ptr_of_ne h heq).symm.trans hptr)
      · rw [mergeInto_clump_of_ne hcl hcr, h.mem]
        refine and_congr_right fun hn => ?_
        by_cases hptr : s.ptr n = r
        · rw [mergeInto_ptr_of_eq h hn hptr, hptr]
          exact iff_of_false (Ne.symm hcr) (Ne.symm hcl)
        · rw [mergeInto_ptr_of_ne h hptr]
  mean := fun c hc => by
    by_cases hcl : c = l
    · subst hcl
      have hclump : (s.mergeInto r c dist).clump c = _ := if_pos rfl
      rw [hclump]
      exact ⟨add_pos (h.mean c hl).1 (h.mean r hr).1, rfl⟩
    · by_cases hcr : c = r
      · subst hcr
        exact absurd (congrArg Clump.nodes ((if_neg hcl).trans (if_pos rfl))) hc
      · rw [mergeInto_clump_of_ne hcl hcr] at hc ⊢
        exact h.mean c hc

/-- The clump on the left moves left, and by no more than the overlap. -/
theorem back_bounds (h : Sound ord s) (hl : (s.clump l).nodes ≠ []) (hr : (s.clump r).nodes ≠ [])
    (hoverlap : (s.clump r).posn < (s.clump l).posn + dist) :
    0 ≤ back s r l dist ∧
      back s r l dist ≤ (s.clump l).posn + dist - (s.clump r).posn := by
  obtain ⟨hwl, hpl⟩ := h.mean l hl
  obtain ⟨hwr, hpr⟩ := h.mean r hr
  have hclump : ((s.mergeInto r l dist).clump l).posn =
      ((s.clump l).wposn + ((s.clump r).wposn - dist * (s.clump r).weight)) /
        ((s.clump l).weight + (s.clump r).weight) := congrArg Clump.posn (if_pos rfl)
  unfold back
  rw [hclump]
  set wl := (s.clump l).weight
  set wr := (s.clump r).weight
  set pl := (s.clump l).posn
  set pr := (s.clump r).posn
  have hpos : 0 < wl + wr := add_pos hwl hwr
  have hlo := Int.ediv_mul_le (s.clump l).wposn hwl.ne'
  have hhi := Int.lt_ediv_add_one_mul_self (s.clump l).wposn hwl
  have hlo' := Int.ediv_mul_le (s.clump r).wposn hwr.ne'
  have hhi' := Int.lt_ediv_add_one_mul_self (s.clump r).wposn hwr
  rw [← hpl] at hlo hhi
  rw [← hpr] at hlo' hhi'
  have hmul : (pr + 1) * wr ≤ (pl + dist) * wr := mul_le_mul_of_nonneg_right (by omega) hwr.le
  constructor
  · -- the weighted mean is less than one above the old position
    have hlt : (s.clump l).wposn + ((s.clump r).wposn - dist * wr) < (pl + 1) * (wl + wr) := by
      nlinarith
    have := Int.ediv_lt_of_lt_mul hpos hlt
    omega
  · have hmul' : (pl - (pl + dist - pr)) * wl ≤ pl * wl :=
      mul_le_mul_of_nonneg_right (by omega) hwl.le
    have hle : (pl - (pl + dist - pr)) * (wl + wr) ≤
        (s.clump l).wposn + ((s.clump r).wposn - dist * wr) := by
      nlinarith
    have := Int.le_ediv_of_mul_le hpos hle
    omega

end

/-! ### Merging a new node -/

/-- The bounds between clumps that come from some of the nodes. -/
def edges (G : ClumpGraph) (s : Clumps) (nodes : List Nat) : Set (DiffEdge Nat) :=
  {e | ∃ v ∈ nodes, ∃ u ∈ G.incoming v,
    e = ⟨s.ptr u, s.ptr v, s.offset u + G.width u - s.offset v⟩}

/-- The node does not overlap the nodes to its left. -/
def Clear (G : ClumpGraph) (left : Nat → Int) (v : Nat) : Prop :=
  ∀ u ∈ G.incoming v, left u + G.width u ≤ left v

/-- A new node, behind nodes that are clear of each other: each of these is known to be clear at its
place before the new node is merged. -/
structure Placing (G : ClumpGraph) (ord done : List Nat) (new : Nat) (left₀ : Nat → Int) : Prop where
  done_sub : ∀ v ∈ done, v ∈ ord
  new_mem : new ∈ ord
  new_not : new ∉ done
  done_closed : ∀ v ∈ done, ∀ u ∈ G.incoming v, u ∈ done
  new_left : ∀ u ∈ G.incoming new, u ∈ done
  clear : ∀ v ∈ done, Clear G left₀ v

/-- The state while the new node is merged; its clump is `r`. -/
structure Merging (G : ClumpGraph) (ord done : List Nat) (new : Nat) (left₀ : Nat → Int)
    (s : Clumps) (r : Nat) : Prop where
  sound : Sound ord s
  new_ptr : s.ptr new = r
  /-- A node that is still to come is alone in its clump. -/
  fresh : ∀ i n, ord[i]? = some n → n ∉ new :: done →
    s.ptr n = i ∧ ∀ m ∈ ord, m ≠ n → s.ptr m ≠ i
  outside : ∀ n ∈ ord, s.ptr n ≠ r → s.left n = left₀ n
  below : ∀ n ∈ done, s.ptr n = r → s.left n ≤ left₀ n
  /-- No overlap with the clump is greater than the way that its nodes have moved left. -/
  overlap : ∀ v ∈ new :: done, ∀ u ∈ G.incoming v, s.ptr v = r → s.ptr u ≠ r →
    ∀ n ∈ done, s.ptr n = r → s.left u + G.width u - s.left v ≤ left₀ n - s.left n
  feasible : ∃ x, ∀ e ∈ edges G s (new :: done), e.Holds x

section

variable {ord done : List Nat} {new : Nat} {left₀ : Nat → Int}

theorem Placing.mem_ord (hp : Placing G ord done new left₀) {v : Nat} (hv : v ∈ new :: done) :
    v ∈ ord := by
  rcases List.mem_cons.mp hv with rfl | hv
  · exact hp.new_mem
  · exact hp.done_sub v hv

theorem Placing.incoming_mem (hp : Placing G ord done new left₀) {v u : Nat} (hv : v ∈ new :: done)
    (hu : u ∈ G.incoming v) : u ∈ done := by
  rcases List.mem_cons.mp hv with rfl | hv
  · exact hp.new_left u hu
  · exact hp.done_closed v hv u hu

/-- Nodes of one clump are as far apart as they have to be. -/
theorem left_of_feasible {nodes : List Nat} {x : Nat → Int} (hx : ∀ e ∈ edges G s nodes, e.Holds x)
    {v u : Nat} (hv : v ∈ nodes) (hu : u ∈ G.incoming v) (hptr : s.ptr u = s.ptr v) :
    s.left u + G.width u ≤ s.left v := by
  have hedge := hx _ ⟨v, hv, u, hu, rfl⟩
  unfold DiffEdge.Holds at hedge
  dsimp only at hedge
  unfold Clumps.left
  rw [hptr] at hedge ⊢
  omega

/-- Only nodes of the clump overlap nodes to their left. -/
theorem Merging.clear (hp : Placing G ord done new left₀) (h : Merging G ord done new left₀ s r)
    {v u : Nat} (hv : v ∈ new :: done) (hu : u ∈ G.incoming v)
    (hin : s.ptr v = r → s.ptr u = r) : s.left u + G.width u ≤ s.left v := by
  by_cases hptr : s.ptr v = r
  · obtain ⟨x, hx⟩ := h.feasible
    exact left_of_feasible hx hv hu ((hin hptr).trans hptr.symm)
  · have hv : v ∈ done := (List.mem_cons.mp hv).resolve_left fun heq =>
      hptr (heq ▸ h.new_ptr)
    have hudone := hp.done_closed v hv u hu
    have hclear := hp.clear v hv u hu
    rw [← h.outside v (hp.done_sub v hv) hptr] at hclear
    by_cases hur : s.ptr u = r
    · have := h.below u hudone hur
      omega
    · rwa [← h.outside u (hp.done_sub u hudone) hur] at hclear

/-- What is known of the two clumps that are merged. -/
structure Contact (G : ClumpGraph) (s : Clumps) (nodes : List Nat) (r l : Nat) (dist : Int) (v u : Nat) :
    Prop where
  v_mem : v ∈ nodes
  u_mem : u ∈ G.incoming v
  v_ptr : s.ptr v = r
  u_ptr : s.ptr u = l
  ne : l ≠ r
  dist : dist = s.offset u + G.width u - s.offset v
  neg : s.left v < s.left u + G.width u
  worst : ∀ v' ∈ nodes, ∀ u' ∈ G.incoming v', s.ptr v' = r → s.ptr u' ≠ r →
    s.left u' + G.width u' - s.left v' ≤ s.left u + G.width u - s.left v

/-- A node of the clump is the new one, or one that is done. -/
theorem Merging.mem_of_ptr (hp : Placing G ord done new left₀)
    (h : Merging G ord done new left₀ s r) {n : Nat} (hn : n ∈ ord) (hptr : s.ptr n = r) :
    n ∈ new :: done := by
  by_contra hnot
  obtain ⟨i, hi⟩ := List.mem_iff_getElem?.mp hn
  obtain ⟨hself, hothers⟩ := h.fresh i n hi hnot
  have hne : new ≠ n := fun heq => hnot (heq ▸ List.mem_cons_self)
  exact hothers new hp.new_mem hne (h.new_ptr.trans (hptr.symm.trans hself))

theorem Merging.contact (hp : Placing G ord done new left₀) (h : Merging G ord done new left₀ s r)
    (hviolated : G.violated s r = some (l, dist)) :
    ∃ v u, Contact G s (new :: done) r l dist v u := by
  obtain ⟨v, hv, u, hu, hl, hne, hneg, hdist, hworst⟩ :=
    violated_some (fun v hv => h.sound.ptr_of_mem hv) hviolated
  obtain ⟨hvord, hvr⟩ := (h.sound.mem r v).mp hv
  refine ⟨v, u, h.mem_of_ptr hp hvord hvr, hu, hvr, hl, hne, hdist, ?_,
    fun v' hv' u' hu' hvr' hne' => ?_⟩
  · unfold diff at hneg
    omega
  · have hmem : v' ∈ (s.clump r).nodes := (h.sound.mem r v').mpr ⟨hp.mem_ord hv', hvr'⟩
    have hle := hworst v' hmem u' hu' hne'
    unfold diff at hle
    omega

/-- The overlap of the clumps. -/
theorem Contact.overlap_eq {nodes : List Nat} {v u : Nat} (hc : Contact G s nodes r l dist v u) :
    s.left u + G.width u - s.left v = (s.clump l).posn + dist - (s.clump r).posn := by
  have hdist := hc.dist
  unfold Clumps.left
  rw [hc.u_ptr, hc.v_ptr]
  omega

/-- After the merge the bounds between the clumps can still be met. -/
theorem Merging.feasible_mergeInto (hp : Placing G ord done new left₀)
    (h : Merging G ord done new left₀ s r) {v u : Nat}
    (hc : Contact G s (new :: done) r l dist v u) :
    ∃ x, ∀ e ∈ edges G (s.mergeInto r l dist) (new :: done), e.Holds x := by
  obtain ⟨y, hy⟩ := h.feasible
  have hcontact := hy _ ⟨v, hc.v_mem, u, hc.u_mem, rfl⟩
  have hdist := hc.dist
  unfold DiffEdge.Holds at hcontact
  dsimp only at hcontact
  rw [hc.u_ptr, hc.v_ptr] at hcontact
  -- the state in which the clump is moved right until nothing overlaps it
  obtain ⟨z, hz, htight⟩ := @DiffEdge.exists_tight Nat (edges G s (new :: done))
    (fun c => if c = r then (s.clump l).posn + dist else (s.clump c).posn) y l r dist (by
      rintro e ⟨v', hv', u', hu', rfl⟩ hsrc
      have hsrc : s.ptr u' ≠ r := hsrc
      show (if s.ptr u' = r then _ else _) + _ ≤ if s.ptr v' = r then _ else _
      rw [if_neg hsrc]
      by_cases hv'r : s.ptr v' = r
      · have hworst := hc.worst v' hv' u' hu' hv'r hsrc
        rw [hc.overlap_eq] at hworst
        unfold Clumps.left at hworst
        rw [hv'r] at hworst
        rw [if_pos hv'r]
        dsimp only
        omega
      · have hclear := h.clear hp hv' hu' fun heq => absurd heq hv'r
        unfold Clumps.left at hclear
        rw [if_neg hv'r]
        dsimp only
        omega) hy (by rw [if_neg hc.ne, if_pos rfl]) (by omega)
  have hpos : ∀ n ∈ ord, z ((s.mergeInto r l dist).ptr n) + (s.mergeInto r l dist).offset n =
      z (s.ptr n) + s.offset n := fun n hn => by
    by_cases hnr : s.ptr n = r
    · rw [mergeInto_ptr_of_eq h.sound hn hnr, mergeInto_offset_of_eq h.sound hn hnr, hnr, ← htight]
      omega
    · rw [mergeInto_ptr_of_ne h.sound hnr, mergeInto_offset_of_ne h.sound hnr]
  refine ⟨z, ?_⟩
  rintro e ⟨v', hv', u', hu', rfl⟩
  have hedge := hz _ ⟨v', hv', u', hu', rfl⟩
  have hv'pos := hpos v' (hp.mem_ord hv')
  have hu'pos := hpos u' (hp.done_sub u' (hp.incoming_mem hv' hu'))
  unfold DiffEdge.Holds at hedge ⊢
  dsimp only at hedge ⊢
  omega

/-- A merge is a step of merging the new node. -/
theorem Merging.step (hp : Placing G ord done new left₀) (h : Merging G ord done new left₀ s r)
    (hviolated : G.violated s r = some (l, dist)) :
    Merging G ord done new left₀ (s.mergeInto r l dist) l := by
  obtain ⟨v, u, hc⟩ := h.contact hp hviolated
  have hudone := hp.incoming_mem hc.v_mem hc.u_mem
  have hlne : (s.clump l).nodes ≠ [] := List.ne_nil_of_mem
    ((h.sound.mem l u).mpr ⟨hp.done_sub u hudone, hc.u_ptr⟩)
  have hrne : (s.clump r).nodes ≠ [] := List.ne_nil_of_mem
    ((h.sound.mem r new).mpr ⟨hp.new_mem, h.new_ptr⟩)
  have hneg := hc.neg
  have hoverlap := hc.overlap_eq
  obtain ⟨hback, hback'⟩ := @back_bounds s r l dist ord h.sound hlne hrne (by omega)
  have hptr : ∀ n ∈ ord, (s.mergeInto r l dist).ptr n = l ↔ s.ptr n = r ∨ s.ptr n = l := by
    intro n hn
    by_cases hnr : s.ptr n = r
    · exact iff_of_true (mergeInto_ptr_of_eq h.sound hn hnr) (Or.inl hnr)
    · rw [mergeInto_ptr_of_ne h.sound hnr]
      exact (or_iff_right hnr).symm
  have hleft_r : ∀ n ∈ ord, s.ptr n = r → (s.mergeInto r l dist).left n =
      s.left n + (s.left u + G.width u - s.left v) - back s r l dist := fun n hn hnr => by
    rw [mergeInto_left_r h.sound hn hnr, hoverlap]
  have hleft_l : ∀ n, s.ptr n = l → (s.mergeInto r l dist).left n = s.left n - back s r l dist :=
    fun n hnl => mergeInto_left_l h.sound hc.ne hnl
  have hfar : ∀ n ∈ done, s.ptr n = r →
      s.left u + G.width u - s.left v ≤ left₀ n - s.left n := fun n hn hnr =>
    h.overlap v hc.v_mem u hc.u_mem hc.v_ptr (hc.u_ptr ▸ hc.ne) n hn hnr
  exact {
    sound := h.sound.mergeInto hc.ne hlne hrne
    new_ptr := mergeInto_ptr_of_eq h.sound hp.new_mem h.new_ptr
    fresh := fun i n hi hn => by
      obtain ⟨hself, hothers⟩ := h.fresh i n hi hn
      have hnord := List.mem_of_getElem? hi
      have hir : i ≠ r := fun heq => hn (h.mem_of_ptr hp hnord (hself.trans heq))
      have hil : i ≠ l := fun heq => hothers u (hp.done_sub u hudone)
        (fun heq => hn (heq ▸ List.mem_cons_of_mem _ hudone)) (hc.u_ptr.trans heq.symm)
      refine ⟨(mergeInto_ptr_of_ne h.sound (hself ▸ hir)).trans hself, fun m hm hmn => ?_⟩
      by_cases hmr : s.ptr m = r
      · rw [mergeInto_ptr_of_eq h.sound hm hmr]
        exact hil.symm
      · rw [mergeInto_ptr_of_ne h.sound hmr]
        exact hothers m hm hmn
    outside := fun n hn hnl => by
      have hnot := mt (hptr n hn).mpr hnl
      rw [not_or] at hnot
      rw [mergeInto_left_of_ne h.sound hnot.2 hnot.1]
      exact h.outside n hn hnot.1
    below := fun n hn hnl => by
      rcases (hptr n (hp.done_sub n hn)).mp hnl with hnr | hnl
      · have := hfar n hn hnr
        rw [hleft_r n (hp.done_sub n hn) hnr]
        omega
      · have := h.outside n (hp.done_sub n hn) (hnl ▸ hc.ne)
        rw [hleft_l n hnl]
        omega
    overlap := fun v' hv' u' hu' hv'l hu'l n hn hnl => by
      have hu'ord := hp.done_sub u' (hp.incoming_mem hv' hu')
      have hnot := mt (hptr u' hu'ord).mpr hu'l
      rw [not_or] at hnot
      rw [mergeInto_left_of_ne h.sound hnot.2 hnot.1]
      -- what overlaps the merged clump is no more than what is left of the overlap
      have hv'back : s.left u' + G.width u' - (s.mergeInto r l dist).left v' ≤ back s r l dist := by
        rcases (hptr v' (hp.mem_ord hv')).mp hv'l with hv'r | hv'l
        · have := hc.worst v' hv' u' hu' hv'r hnot.1
          rw [hleft_r v' (hp.mem_ord hv') hv'r]
          omega
        · have := h.clear hp hv' hu' fun heq => absurd (hv'l.symm.trans heq) hc.ne
          rw [hleft_l v' hv'l]
          omega
      rcases (hptr n (hp.done_sub n hn)).mp hnl with hnr | hnl
      · have := hfar n hn hnr
        rw [hleft_r n (hp.done_sub n hn) hnr]
        omega
      · have := h.outside n (hp.done_sub n hn) (hnl ▸ hc.ne)
        rw [hleft_l n hnl]
        omega
    feasible := h.feasible_mergeInto hp hc }

/-- The nodes that are not in the clump; a merge leaves fewer of them. -/
def outsiders (s : Clumps) (done : List Nat) (r : Nat) : Nat := done.countP fun n => s.ptr n ≠ r

theorem Merging.outsiders_lt (hp : Placing G ord done new left₀)
    (h : Merging G ord done new left₀ s r) (hviolated : G.violated s r = some (l, dist)) :
    outsiders (s.mergeInto r l dist) done l < outsiders s done r := by
  obtain ⟨v, u, hc⟩ := h.contact hp hviolated
  have hudone := hp.incoming_mem hc.v_mem hc.u_mem
  obtain ⟨before, after, hsplit⟩ := List.append_of_mem hudone
  have hle : ∀ nodes : List Nat, (∀ n ∈ nodes, n ∈ done) →
      nodes.countP (fun n => (s.mergeInto r l dist).ptr n ≠ l) ≤
        nodes.countP fun n => s.ptr n ≠ r := fun nodes hnodes => by
    refine List.countP_mono_left fun n hn hne => ?_
    rw [decide_eq_true_eq] at hne ⊢
    exact fun heq => hne (mergeInto_ptr_of_eq h.sound (hp.done_sub n (hnodes n hn)) heq)
  have hnot : (s.mergeInto r l dist).ptr u = l := by
    rw [mergeInto_ptr_of_ne h.sound (hc.u_ptr ▸ hc.ne)]
    exact hc.u_ptr
  have hin : s.ptr u ≠ r := hc.u_ptr ▸ hc.ne
  unfold outsiders
  rw [hsplit] at hle ⊢
  have hbefore := hle before fun n hn => List.mem_append_left _ hn
  have hafter := hle after fun n hn => List.mem_append_right _ (List.mem_cons_of_mem _ hn)
  rw [List.countP_append, List.countP_append, List.countP_cons_of_neg (by simp [hnot]),
    List.countP_cons_of_pos (by simp [hin])]
  omega

/-- With rounds enough a node is merged until nothing overlaps its clump. -/
theorem Merging.run (hp : Placing G ord done new left₀) (fuel : Nat) : ∀ (s : Clumps) (r : Nat),
    Merging G ord done new left₀ s r → outsiders s done r < fuel →
    ∃ r', Merging G ord done new left₀ (G.merge fuel s r) r' ∧
      G.violated (G.merge fuel s r) r' = none := by
  induction fuel with
  | zero => exact fun s r _ hfuel => absurd hfuel (Nat.not_lt_zero _)
  | succ fuel ih =>
      intro s r h hfuel
      unfold merge
      cases hviolated : G.violated s r with
      | none => exact ⟨r, h, hviolated⟩
      | some w =>
          obtain ⟨l, dist⟩ := w
          have hlt := h.outsiders_lt hp hviolated
          exact ih _ l (h.step hp hviolated) (by omega)

end

/-! ### All nodes -/

/-- The nodes are merged up to some place in their order: those before it are clear of each other,
the others alone in their clumps. -/
structure Settled (G : ClumpGraph) (ord done : List Nat) (s : Clumps) : Prop where
  sound : Sound ord s
  fresh : ∀ i n, ord[i]? = some n → n ∉ done → s.ptr n = i ∧ ∀ m ∈ ord, m ≠ n → s.ptr m ≠ i
  clear : ∀ v ∈ done, Clear G s.left v
  feasible : ∃ x, ∀ e ∈ edges G s done, e.Holds x

/-- Each node stands behind the nodes to its left. -/
def LeftFirst (G : ClumpGraph) (ord : List Nat) : Prop :=
  ∀ before v after, ord = before ++ v :: after → ∀ u ∈ G.incoming v, u ∈ before

/-- The next node is merged. -/
theorem Settled.next {ord before after : List Nat} {v fuel : Nat} (hord : ord = before ++ v :: after)
    (hnodup : ord.Nodup) (hleft : LeftFirst G ord) (hfuel : before.length < fuel)
    (h : Settled G ord before s) :
    Settled G ord (before ++ [v]) (G.merge fuel s before.length) := by
  have hv : v ∉ before := fun hv => by
    rw [hord, List.nodup_append] at hnodup
    exact hnodup.2.2 v hv v List.mem_cons_self rfl
  have hget : ord[before.length]? = some v := by
    rw [hord, List.getElem?_append_right le_rfl, Nat.sub_self]
    rfl
  obtain ⟨hself, hothers⟩ := h.fresh _ v hget hv
  have hsub : ∀ n ∈ before, n ∈ ord := fun n hn => hord ▸ List.mem_append_left _ hn
  have hptr : ∀ n ∈ before, s.ptr n ≠ before.length := fun n hn =>
    hothers n (hsub n hn) fun heq => hv (heq ▸ hn)
  have hp : Placing G ord before v s.left := {
    done_sub := hsub
    new_mem := hord ▸ List.mem_append_right _ List.mem_cons_self
    new_not := hv
    done_closed := fun n hn u hu => by
      obtain ⟨before', rest, hsplit⟩ := List.append_of_mem hn
      have := hleft before' n (rest ++ v :: after) (by rw [hord, hsplit]; simp) u hu
      rw [hsplit]
      exact List.mem_append_left _ this
    new_left := hleft before v after hord
    clear := h.clear }
  have hstart : Merging G ord before v s.left s before.length := {
    sound := h.sound
    new_ptr := hself
    fresh := fun i n hi hn => h.fresh i n hi fun hmem => hn (List.mem_cons_of_mem _ hmem)
    outside := fun _ _ _ => rfl
    below := fun n hn hnr => absurd hnr (hptr n hn)
    overlap := fun _ _ _ _ _ _ n hn hnr => absurd hnr (hptr n hn)
    feasible := by
      obtain ⟨x, hx⟩ := h.feasible
      obtain ⟨b, hb⟩ := DiffEdge.exists_upper (G.incoming v) fun u =>
        x (s.ptr u) + (s.offset u + G.width u - s.offset v)
      refine ⟨_, @DiffEdge.exists_extend Nat _ x _ before.length ?_ ?_ b ?_⟩
      · rintro e ⟨v', hv', u, hu, rfl⟩ hne
        refine hx _ ⟨v', (List.mem_cons.mp hv').resolve_left fun heq => hne ?_, u, hu, rfl⟩
        rw [heq]
        exact hself
      · rintro e ⟨v', hv', u, hu, rfl⟩
        exact hptr u (hp.incoming_mem hv' hu)
      · rintro e ⟨v', hv', u, hu, rfl⟩ heq
        have hv'v : v' = v := by
          by_contra hne
          exact hothers v' (hp.mem_ord hv') hne heq
        subst hv'v
        exact hb u hu }
  obtain ⟨r, hend, hnone⟩ := hstart.run hp fuel s _ (lt_of_le_of_lt List.countP_le_length hfuel)
  have hmem : ∀ n, n ∈ before ++ [v] ↔ n ∈ v :: before := fun n => by
    rw [List.mem_append, List.mem_singleton, List.mem_cons, or_comm]
  obtain ⟨x, hx⟩ := hend.feasible
  exact {
    sound := hend.sound
    fresh := fun i n hi hn => hend.fresh i n hi (mt (hmem n).mpr hn)
    clear := fun v' hv' u hu => by
      have hv' := (hmem v').mp hv'
      by_cases hin : (G.merge fuel s before.length).ptr v' = r →
          (G.merge fuel s before.length).ptr u = r
      · exact hend.clear hp hv' hu hin
      · rw [Classical.not_imp] at hin
        exact violated_none (fun n hn => hend.sound.ptr_of_mem hn) hnone
          ((hend.sound.mem r v').mpr ⟨hp.mem_ord hv', hin.1⟩) hu hin.2
    feasible := ⟨x, fun e ⟨v', hv', u, hu, he⟩ => hx e ⟨v', (hmem v').mp hv', u, hu, he⟩⟩ }

/-- Merging all nodes leaves them clear of each other. -/
theorem Settled.foldl {ord : List Nat} (hnodup : ord.Nodup) (hleft : LeftFirst G ord)
    (after : List Nat) : ∀ (before : List Nat) (s : Clumps), ord = before ++ after →
      Settled G ord before s →
      Settled G ord ord ((List.range' before.length after.length).foldl
        (fun s i => G.merge ord.length s i) s) := by
  induction after with
  | nil =>
      intro before s hord h
      rw [List.append_nil] at hord
      exact hord ▸ h
  | cons v after ih =>
      intro before s hord h
      have hlen : before.length < ord.length := by
        rw [hord, List.length_append, List.length_cons]
        omega
      have hnext := ih (before ++ [v]) _ (by rw [hord]; simp) (h.next hord hnodup hleft hlen)
      rwa [List.length_append] at hnext

end ClumpGraph

end OpenRoad.Dpl
