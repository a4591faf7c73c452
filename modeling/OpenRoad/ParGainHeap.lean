import OpenRoad.IndexedHeapAgree
import OpenRoad.ParRefiner
import OpenRoad.Run
import Mathlib.Data.Fin.VecNotation
import Mathlib.Data.Prod.Lex

/-!
A gain bucket over sequences of its operations. `CompareElementLargeThan` orders the vertices of one
gain by the elementwise comparison of their weights, which ranks them only where weights that are
not comparable are as good as equal. Where they do, the comparison is that of a linear key, and the
heap has its order. The activity flag is set by the callers, and only `Remove` and `Clear` reset it.
-/

namespace OpenRoad.Par

open IndexedHeap

variable {d k : Nat}

namespace Hypergraph

variable (H : Hypergraph d k)

/-- The weights of the vertices are ranked by `operator<`: weights that it does not compare rank the
same. -/
structure WeightsRanked : Prop where
  irrefl : ∀ v < H.numVertices, (H.vertexWeight v).less (H.vertexWeight v) = false
  less_or_less : ∀ u < H.numVertices, ∀ v < H.numVertices, ∀ w < H.numVertices,
    (H.vertexWeight u).less (H.vertexWeight w) = true →
      (H.vertexWeight u).less (H.vertexWeight v) = true ∨
        (H.vertexWeight v).less (H.vertexWeight w) = true

/-- How many vertices are lighter than a vertex. -/
def weightRank (v : Nat) : Nat :=
  (List.range H.numVertices).countP fun u => (H.vertexWeight u).less (H.vertexWeight v)

variable {H}

/-- The number of lighter vertices tells which of two vertices is the lighter one. -/
theorem WeightsRanked.less_iff (hweights : H.WeightsRanked) {u v : Nat} (hu : u < H.numVertices)
    (hv : v < H.numVertices) :
    (H.vertexWeight u).less (H.vertexWeight v) = true ↔ H.weightRank u < H.weightRank v := by
  have htrans : ∀ x, (H.vertexWeight x).less (H.vertexWeight u) = true →
      (H.vertexWeight u).less (H.vertexWeight v) = true →
        (H.vertexWeight x).less (H.vertexWeight v) = true := by
    intro x hxu huv
    unfold Weights.less at *
    rw [decide_eq_true_eq] at *
    exact fun i => lt_trans (hxu i) (huv i)
  constructor
  · intro hless
    unfold weightRank
    rw [List.countP_eq_length_filter, List.countP_eq_length_filter]
    have hsub : List.Sublist ((List.range H.numVertices).filter fun x =>
        (H.vertexWeight x).less (H.vertexWeight u)) ((List.range H.numVertices).filter fun x =>
        (H.vertexWeight x).less (H.vertexWeight v)) :=
      List.monotone_filter_right _ fun x hx => htrans x hx hless
    apply lt_of_le_of_ne hsub.length_le
    intro heq
    have hmem : u ∈ (List.range H.numVertices).filter fun x =>
        (H.vertexWeight x).less (H.vertexWeight v) :=
      List.mem_filter.mpr ⟨List.mem_range.mpr hu, hless⟩
    rw [← hsub.eq_of_length heq] at hmem
    have hself := (List.mem_filter.mp hmem).2
    rw [hweights.irrefl u hu] at hself
    cases hself
  · intro hlt
    by_contra hnot
    apply absurd hlt
    rw [not_lt]
    apply List.countP_mono_left
    intro x hx hxv
    exact (hweights.less_or_less x (List.mem_range.mp hx) u hu v hv hxv).resolve_right hnot

end Hypergraph

/-- The gains ordered by gain, and within one gain by lightness of the vertex. -/
def gainRanking (H : Hypergraph d k) : Ranking VertexGain (ℚ ×ₗ ℕᵒᵈ) where
  key := VertexGain.vertex
  prio x := toLex (x.gain, OrderDual.toDual (H.weightRank x.vertex))
  larger x y := decide (toLex (y.gain, OrderDual.toDual (H.weightRank y.vertex)) <
    toLex (x.gain, OrderDual.toDual (H.weightRank x.vertex)))
  prio_le_of_larger _ _ h := le_of_lt (of_decide_eq_true h)
  prio_le_of_not_larger _ _ h := not_lt.mp (of_decide_eq_false h)

/-- The element's vertex is a vertex of the hypergraph. -/
def VertexGain.InRange (H : Hypergraph d k) (x : VertexGain) : Prop := x.vertex < H.numVertices

theorem gainRanking_prio_lt {H : Hypergraph d k} {x y : VertexGain} :
    (gainRanking H).prio y < (gainRanking H).prio x ↔
      y.gain < x.gain ∨ y.gain = x.gain ∧ H.weightRank x.vertex < H.weightRank y.vertex := by
  unfold gainRanking
  rw [Prod.Lex.toLex_lt_toLex]
  rfl

/-- Where the weights are ranked, the comparison is that of the linear order. -/
theorem Hypergraph.WeightsRanked.agree {H : Hypergraph d k} (hweights : H.WeightsRanked) :
    AgreeOn (ranking H) (gainRanking H) (VertexGain.InRange H) where
  key_eq := rfl
  larger_eq x y hx hy := by
    have hlinear : (gainRanking H).larger x y =
        decide ((gainRanking H).prio y < (gainRanking H).prio x) := rfl
    rw [hlinear, Bool.eq_iff_iff, decide_eq_true_eq, gainRanking_prio_lt,
      ← hweights.less_iff hx hy]
    unfold ranking
    rw [Bool.or_eq_true, Bool.and_eq_true, decide_eq_true_eq, decide_eq_true_eq]
    exact or_congr_right (and_congr_left' eq_comm)

namespace PriorityQueue

/-! ### The operations -/

def extractMax (H : Hypergraph d k) (q : PriorityQueue) : PriorityQueue :=
  { q with heap := q.heap.extractMax (ranking H) }

/-- `Clear` -/
def clear (q : PriorityQueue) : PriorityQueue :=
  { active := false, heap := { q.heap with count := 0, position := fun _ => none } }

inductive Operation where
  | insertIntoPQ (element : VertexGain)
  | extractMax
  | remove (vertexId : Nat)
  | changePriority (vertexId : Nat) (newElement : VertexGain)
  | clear

/-- An operation; `none` where its precondition does not hold. -/
def perform (H : Hypergraph d k) (q : PriorityQueue) : Operation → Option PriorityQueue
  | .insertIntoPQ element =>
      if element.vertex < H.numVertices ∧ q.lookup element.vertex = none then
        some (q.insertIntoPQ H element)
      else none
  | .extractMax => if q.heap.count = 0 then none else some (q.extractMax H)
  | .remove vertexId => if vertexId < H.numVertices then some (q.remove H vertexId) else none
  | .changePriority vertexId newElement =>
      if vertexId < H.numVertices ∧ newElement.vertex = vertexId then
        some (q.changePriority H vertexId newElement)
      else none
  | .clear => some q.clear

/-- The operations that keep the activity flag right: none is inserted in a bucket that is not
active, and the last element is not extracted. -/
def Keeps (q : PriorityQueue) : Operation → Prop
  | .insertIntoPQ _ => q.active = true
  | .extractMax => 2 ≤ q.heap.count
  | _ => True

/-! ### The bucket is right -/

/-- The heap has the order of `CompareElementLargeThan`, the map has the positions of the vertices
that are present, and `GetMax` is a maximum. -/
structure Sorted (H : Hypergraph d k) (q : PriorityQueue) : Prop where
  positions : q.heap.Valid (ranking H)
  inRange : q.heap.AllIn (VertexGain.InRange H)
  heapOrder : ∀ i, 0 < i → i < q.heap.count →
    (ranking H).larger (q.heap.entries i) (q.heap.entries (parent i)) = false
  greatest : ∀ i < q.heap.count, (ranking H).larger (q.heap.entries i) q.getMax = false

/-- Sorted, and active when it is not empty. -/
structure Right (H : Hypergraph d k) (q : PriorityQueue) : Prop extends q.Sorted H where
  active_iff : q.active = true ↔ 0 < q.heap.count

variable {H : Hypergraph d k} {q : PriorityQueue}

/-- The bucket as a heap of the linear order. -/
theorem sorted_iff (hweights : H.WeightsRanked) :
    q.Sorted H ↔ q.heap.AllIn (VertexGain.InRange H) ∧ q.heap.Valid (gainRanking H) ∧
      q.heap.Ordered (gainRanking H) := by
  have hagree := hweights.agree
  have hlinear : ∀ x y, (gainRanking H).larger x y =
      decide ((gainRanking H).prio y < (gainRanking H).prio x) := fun _ _ => rfl
  rw [Heap.ordered_iff_larger hlinear]
  constructor
  · intro hsorted
    refine ⟨hsorted.inRange, (Heap.valid_agree hagree).mp hsorted.positions, fun i hpos hi => ?_⟩
    rw [← hsorted.heapOrder i hpos hi]
    exact (hagree.larger_eq _ _ (hsorted.inRange i hi)
      (hsorted.inRange _ (Nat.lt_trans (parent_lt hpos) hi))).symm
  · rintro ⟨hall, hvalid, horder⟩
    refine ⟨(Heap.valid_agree hagree).mpr hvalid, hall, fun i hpos hi => ?_, fun i hi => ?_⟩
    · rw [← horder i hpos hi]
      exact hagree.larger_eq _ _ (hall i hi) (hall _ (Nat.lt_trans (parent_lt hpos) hi))
    · have hle := ((Heap.ordered_iff_larger hlinear).mpr horder).le_root hi
      have hroot : 0 < q.heap.count := Nat.zero_lt_of_lt hi
      unfold getMax
      rw [hagree.larger_eq _ _ (hall i hi) (hall 0 hroot), hlinear]
      exact decide_eq_false (not_lt.mpr hle)

/-! ### One operation -/

theorem Sorted.insertIntoPQ (hweights : H.WeightsRanked) (hq : q.Sorted H) {element : VertexGain}
    (hrange : element.InRange H) (hnew : q.lookup element.vertex = none) :
    (q.insertIntoPQ H element).Sorted H ∧
      (q.insertIntoPQ H element).heap.count = q.heap.count + 1 := by
  obtain ⟨hall, hvalid, hordered⟩ := (sorted_iff hweights).mp hq
  obtain ⟨heq, hall'⟩ := Heap.push_agree hweights.agree hall hrange
  obtain ⟨hvalid', hordered', hcount, -⟩ := Heap.push_spec hvalid hordered hnew
  rw [← heq] at hvalid' hordered' hcount
  exact ⟨(sorted_iff hweights).mpr ⟨hall', hvalid', hordered'⟩, hcount⟩

theorem Sorted.extractMax (hweights : H.WeightsRanked) (hq : q.Sorted H)
    (hpos : 0 < q.heap.count) :
    (q.extractMax H).Sorted H ∧ (q.extractMax H).heap.count = q.heap.count - 1 := by
  obtain ⟨hall, hvalid, hordered⟩ := (sorted_iff hweights).mp hq
  obtain ⟨heq, hall'⟩ := Heap.extractMax_agree hweights.agree hall hpos
  obtain ⟨hvalid', hordered', hcount, -⟩ := Heap.extractMax_spec hvalid hordered hpos
  rw [← heq] at hvalid' hordered' hcount
  exact ⟨(sorted_iff hweights).mpr ⟨hall', hvalid', hordered'⟩, hcount⟩

/-- `Remove`: with the raised gain the element is greater than all others, so it is the one that is
extracted. -/
theorem Sorted.remove (hweights : H.WeightsRanked) (hq : q.Sorted H) (v : Nat) :
    (q.remove H v).Sorted H ∧
      (q.remove H v = q ∨ ((q.remove H v).active = true ↔
        q.active = true ∧ 0 < (q.remove H v).heap.count) ∧
        (q.remove H v).heap.count = q.heap.count - 1) := by
  obtain ⟨hall, hvalid, hordered⟩ := (sorted_iff hweights).mp hq
  unfold PriorityQueue.remove
  cases hposition : q.heap.position v with
  | none => exact ⟨hq, Or.inl rfl⟩
  | some index =>
      obtain ⟨hi, -⟩ := hvalid.positioned v index hposition
      have hkeys : (gainRanking H).key { q.heap.entries index with gain := q.getMax.gain + 1 } =
          (gainRanking H).key (q.heap.entries index) := rfl
      have hgreatest : ∀ j < q.heap.count, (gainRanking H).prio (q.heap.entries j) <
          (gainRanking H).prio { q.heap.entries index with gain := q.getMax.gain + 1 } := by
        intro j hj
        have hgain : (q.heap.entries j).gain ≤ q.getMax.gain :=
          (ranking H).prio_le_of_not_larger _ _ (hq.greatest j hj)
        exact gainRanking_prio_lt.mpr (Or.inl (lt_of_le_of_lt hgain (lt_add_one _)))
      obtain ⟨hvalid', hordered', hcount, -⟩ :=
        Heap.place_extractMax_spec hvalid hordered hi hkeys hgreatest
      have hplaced := hall.place (O := gainRanking H) index
        (x := { q.heap.entries index with gain := q.getMax.gain + 1 }) (hall index hi)
      obtain ⟨hup, hraised⟩ := Heap.heapifyUpLoop_agree hweights.agree index hplaced
        (show index < _ from hi)
      have hcount' := (Heap.heapifyUpLoop_spec index (hvalid.place hi hkeys).1
        (show index < _ from hi)).2.2
      rw [← hup] at hcount'
      obtain ⟨hextract, hall'⟩ := Heap.extractMax_agree hweights.agree hraised
        (hcount'.symm ▸ Nat.zero_lt_of_lt hi)
      unfold Heap.heapifyUp at hvalid' hordered' hcount
      rw [← hup, ← hextract] at hvalid' hordered' hcount
      dsimp only
      rw [hvalid.replace_eq_place hi hkeys]
      refine ⟨(sorted_iff hweights).mpr ⟨hall', hvalid', hordered'⟩, Or.inr ⟨?_, hcount⟩⟩
      split
      · rename_i hzero
        exact iff_of_false Bool.false_ne_true fun h => absurd hzero (Nat.ne_of_gt h.2)
      · rename_i hne
        exact (and_iff_left (Nat.pos_of_ne_zero hne)).symm

theorem Sorted.changePriority (hweights : H.WeightsRanked) (hq : q.Sorted H) {v : Nat}
    {element : VertexGain} (hv : v < H.numVertices) (hvertex : element.vertex = v) :
    (q.changePriority H v element).Sorted H ∧
      (q.changePriority H v element).active = q.active ∧
      (q.changePriority H v element).heap.count = q.heap.count := by
  obtain ⟨hall, hvalid, hordered⟩ := (sorted_iff hweights).mp hq
  unfold PriorityQueue.changePriority
  cases hposition : q.heap.position v with
  | none => exact ⟨hq, rfl, rfl⟩
  | some index =>
      obtain ⟨hi, hkey⟩ := hvalid.positioned v index hposition
      have hkeys : (gainRanking H).key element = (gainRanking H).key (q.heap.entries index) :=
        hvertex.trans hkey.symm
      have hrange : element.vertex < H.numVertices := hvertex.symm ▸ hv
      have hplaced := hall.place (O := gainRanking H) index hrange
      dsimp only
      rw [hvalid.replace_eq_place hi hkeys]
      split
      · rename_i hlt
        have hle := le_of_lt (gainRanking_prio_lt (H := H).mpr (Or.inl hlt))
        obtain ⟨hvalid', hordered', hcount, -⟩ := Heap.place_up_spec hvalid hordered hi hkeys hle
        obtain ⟨heq, hall'⟩ := Heap.heapifyUpLoop_agree hweights.agree index hplaced
          (show index < _ from hi)
        unfold Heap.heapifyUp at hvalid' hordered' hcount
        rw [← heq] at hvalid' hordered' hcount
        exact ⟨(sorted_iff hweights).mpr ⟨hall', hvalid', hordered'⟩, rfl, hcount⟩
      · rename_i hnot
        have hle : (gainRanking H).prio element ≤ (gainRanking H).prio (q.heap.entries index) := by
          rw [← not_lt, gainRanking_prio_lt]
          rintro (hlt | ⟨-, hlt⟩)
          · exact hnot hlt
          · have hsame : element.vertex = (q.heap.entries index).vertex := hkeys
            rw [hsame] at hlt
            exact lt_irrefl _ hlt
        obtain ⟨hvalid', hordered', hcount, -⟩ := Heap.place_down_spec hvalid hordered hi hkeys hle
        obtain ⟨heq, hall'⟩ := Heap.heapifyDownLoop_agree hweights.agree q.heap.count hplaced
          (show index < _ from hi)
        have heq' : (q.heap.place (gainRanking H) index element).heapifyDown (ranking H) index =
            (q.heap.place (gainRanking H) index element).heapifyDown (gainRanking H) index := heq
        rw [← heq'] at hvalid' hordered' hcount
        exact ⟨(sorted_iff hweights).mpr ⟨hall', hvalid', hordered'⟩, rfl, hcount⟩

theorem sorted_clear : q.clear.Sorted H where
  positions := ⟨fun i hi => absurd hi (Nat.not_lt_zero i), fun s i hs => by cases hs⟩
  inRange i hi := absurd hi (Nat.not_lt_zero i)
  heapOrder i _ hi := absurd hi (Nat.not_lt_zero i)
  greatest i hi := absurd hi (Nat.not_lt_zero i)

/-- What an operation that is performed leaves is sorted; it is right when the operation keeps the
flag. -/
theorem perform_spec (hweights : H.WeightsRanked) (op : Operation) (q' : PriorityQueue)
    (hperform : q.perform H op = some q') (hq : q.Sorted H) :
    q'.Sorted H ∧ (q.Right H → (q'.Right H ↔ q.Keeps op)) := by
  cases op with
  | insertIntoPQ element =>
      rw [perform] at hperform
      split at hperform
      · rename_i hpre
        obtain rfl := Option.some.inj hperform
        obtain ⟨hsorted, hcount⟩ := hq.insertIntoPQ hweights hpre.1 hpre.2
        refine ⟨hsorted, fun _ => ⟨fun hright => ?_, fun hactive => ⟨hsorted, ?_⟩⟩⟩
        · exact hright.active_iff.mpr (by omega)
        · exact iff_of_true hactive (by omega)
      · cases hperform
  | extractMax =>
      rw [perform] at hperform
      split at hperform
      · cases hperform
      · rename_i hpre
        obtain rfl := Option.some.inj hperform
        have hpos := Nat.pos_of_ne_zero hpre
        obtain ⟨hsorted, hcount⟩ := hq.extractMax hweights hpos
        refine ⟨hsorted, fun hright => ?_⟩
        have hactive := hright.active_iff.mpr hpos
        unfold Keeps
        constructor
        · intro hright'
          have := hright'.active_iff.mp hactive
          omega
        · exact fun htwo => ⟨hsorted, iff_of_true hactive (by omega)⟩
  | remove vertexId =>
      rw [perform] at hperform
      split at hperform
      · obtain rfl := Option.some.inj hperform
        obtain ⟨hsorted, hcase⟩ := hq.remove hweights vertexId
        refine ⟨hsorted, fun hright => iff_of_true ⟨hsorted, ?_⟩ trivial⟩
        rcases hcase with heq | ⟨hactive, hcount⟩
        · rw [heq]
          exact hright.active_iff
        · rw [hactive, hright.active_iff]
          omega
      · cases hperform
  | changePriority vertexId newElement =>
      rw [perform] at hperform
      split at hperform
      · rename_i hpre
        obtain rfl := Option.some.inj hperform
        obtain ⟨hsorted, hactive, hcount⟩ := hq.changePriority hweights hpre.1 hpre.2
        refine ⟨hsorted, fun hright => iff_of_true ⟨hsorted, ?_⟩ trivial⟩
        rw [hactive, hcount]
        exact hright.active_iff
      · cases hperform
  | clear =>
      obtain rfl := Option.some.inj hperform
      exact ⟨sorted_clear, fun _ => iff_of_true ⟨sorted_clear, iff_of_false Bool.false_ne_true
        (Nat.lt_irrefl 0)⟩ trivial⟩

/-! ### Every sequence of operations -/

/-- Where the weights are ranked, every state that a sequence of operations reaches is sorted; all of
them are active exactly when not empty where no operation breaks the flag. -/
theorem run_right_iff (hweights : H.WeightsRanked) (hq : q.Right H) {ops : List Operation}
    (hrun : (Run.run (perform H) q ops).isSome) :
    (∀ os, os <+: ops → ∀ q', Run.run (perform H) q os = some q' → q'.Sorted H) ∧
      ((∀ os, os <+: ops → ∀ q', Run.run (perform H) q os = some q' → q'.Right H) ↔
        Run.Along (perform H) Keeps q ops) := by
  constructor
  · intro os _ q' hq'
    have hstep : ∀ s o s', Sorted H s → s.perform H o = some s' → Sorted H s' :=
      fun s o s' hs hstep => (perform_spec hweights o s' hstep hs).1
    exact Run.run_invariant_of_step hstep hq.toSorted hq'
  · exact Run.forall_prefix_iff_along
      (fun s o s' hs hstep => (perform_spec hweights o s' hstep hs.toSorted).2 hs) hq hrun

/-- Two vertices of one dimension. -/
def twoVertices : Hypergraph 1 1 :=
  Hypergraph.make [[0, 1]] [fun _ => 1, fun _ => 2] [fun _ => 1] []

/-- A bucket that its owner has activated after the first insertion. -/
def activated : PriorityQueue :=
  { (empty.insertIntoPQ twoVertices ⟨0, 0, 1, 3⟩) with active := true }

theorem activated_right : activated.Right twoVertices := by
  have hcount : activated.heap.count = 1 := rfl
  have hentry : activated.heap.entries 0 = ⟨0, 0, 1, 3⟩ := rfl
  have hsame : activated.heap = (empty.insertIntoPQ twoVertices ⟨0, 0, 1, 3⟩).heap := rfl
  have hgood : (empty.insertIntoPQ twoVertices ⟨0, 0, 1, 3⟩).Good twoVertices :=
    ((good_empty (H := twoVertices)).insertIntoPQ rfl).1
  refine ⟨⟨hsame ▸ hgood.valid, ?_, ?_, ?_⟩, iff_of_true rfl (hcount ▸ Nat.zero_lt_one)⟩
  · intro i hi
    obtain rfl : i = 0 := by omega
    rw [hentry]
    exact (by decide : 0 < twoVertices.numVertices)
  · intro i hpos hi
    omega
  · intro i hi
    obtain rfl : i = 0 := by omega
    decide

theorem twoVertices_ranked : twoVertices.WeightsRanked where
  irrefl := by decide
  less_or_less := by decide

/-- One more vertex, raised above the first one, and both taken out of the bucket. -/
theorem activated_run_right_iff :
    (∀ os, os <+: [Operation.insertIntoPQ ⟨1, 0, 1, 2⟩, .changePriority 1 ⟨1, 0, 1, 5⟩,
        .extractMax, .remove 0] →
      ∀ q', Run.run (perform twoVertices) activated os = some q' → q'.Sorted twoVertices) ∧
    ((∀ os, os <+: [Operation.insertIntoPQ ⟨1, 0, 1, 2⟩, .changePriority 1 ⟨1, 0, 1, 5⟩,
        .extractMax, .remove 0] →
      ∀ q', Run.run (perform twoVertices) activated os = some q' → q'.Right twoVertices) ↔
      Run.Along (perform twoVertices) Keeps activated
        [.insertIntoPQ ⟨1, 0, 1, 2⟩, .changePriority 1 ⟨1, 0, 1, 5⟩, .extractMax, .remove 0]) :=
  run_right_iff twoVertices_ranked activated_right rfl

/-- Four vertices of two dimensions, the last one lighter than the first in both. -/
def fourVertices : Hypergraph 2 1 :=
  Hypergraph.make [[0, 1, 2, 3]] [![2, 2], ![1, 3], ![3, 3], ![1, 1]] [fun _ => 1] []

/-- A bucket with one element is not active. Of four elements of one gain, the lightest one stays
below a vertex that it is not comparable with, and the root is a heavier one. -/
theorem not_run_right :
    (∃ q, Run.run (perform twoVertices) empty [.insertIntoPQ ⟨0, 0, 1, 3⟩] = some q ∧
      ¬q.Right twoVertices) ∧
    ∃ q, Run.run (perform fourVertices) empty [.insertIntoPQ ⟨0, 0, 1, 3⟩,
        .insertIntoPQ ⟨1, 0, 1, 3⟩, .insertIntoPQ ⟨2, 0, 1, 3⟩, .insertIntoPQ ⟨3, 0, 1, 3⟩] = some q ∧
      ¬q.Sorted fourVertices := by
  refine ⟨⟨_, rfl, fun hright => ?_⟩, ⟨_, rfl, fun hsorted => ?_⟩⟩
  · exact absurd (hright.active_iff.mpr (by decide)) (by decide)
  · exact absurd (hsorted.greatest 3 (by decide)) (by decide)

end PriorityQueue

end OpenRoad.Par
