import Mathlib.Data.List.Sort
import Mathlib.Order.Basic
import Mathlib.Order.MinMax
import Mathlib.Data.List.Basic
import Mathlib.Data.Int.Order.Basic
import Mathlib.Tactic.Common

/-!
Merging intervals with a stack: the intervals are sorted by their lower ends, and each one either
extends the interval on top of the stack or is pushed. How an interval is extended is a parameter,
which need not give it the upper end of the interval that it meets.
-/

namespace OpenRoad

/-- A sorting function of a standard library: the order of equivalent elements is left open. -/
structure StdSort {α : Type*} (less : α → α → Bool) where
  sort : List α → List α
  perm : ∀ l, (sort l).Perm l
  sorted : ∀ l, (sort l).Pairwise fun a b => less b a = false

namespace IntervalMerge

variable {α : Type*} (lo hi : α → Int)

/-- Intervals in the order of their lower ends, and of their upper ends where these are equal. -/
def before (a b : α) : Bool := if lo a = lo b then hi a < hi b else lo a < lo b

/-- Insertion sort in the order `before`. -/
def insertSort : StdSort (before lo hi) where
  sort := List.insertionSort fun a b => before lo hi b a = false
  perm := List.perm_insertionSort _
  sorted := fun l => by
    have : Std.Total fun a b : α => before lo hi b a = false :=
      ⟨fun a b => by simp only [before]; split_ifs <;> simp_all <;> omega⟩
    have : IsTrans α fun a b => before lo hi b a = false :=
      ⟨fun a b c => by simp only [before]; split_ifs <;> simp_all <;> omega⟩
    exact List.pairwise_insertionSort _ l

variable (extend : α → α → α)

/-- The loop over the sorted intervals, with the stack below its top. -/
def mergeStack : List α → α → List α → List α
  | below, top, [] => top :: below
  | below, top, b :: rest =>
      if hi top < lo b then mergeStack (top :: below) b rest
      else mergeStack below (if hi top < hi b then extend top b else top) rest

/-- The intervals sorted, merged, and sorted again. -/
def merge (S : StdSort (before lo hi)) (l : List α) : List α :=
  match S.sort l with
  | [] => []
  | b :: rest => S.sort (mergeStack lo hi extend [] b rest)

variable {lo hi extend}

/-- An interval covers the unit from `x` to `x + 1`. -/
def Covers (lo hi : α → Int) (x : Int) (a : α) : Prop := lo a ≤ x ∧ x < hi a

theorem lo_le_of_not_before {a b : α} (h : before lo hi b a = false) : lo a ≤ lo b := by
  unfold before at h
  split_ifs at h with heq
  · exact heq.ge
  · exact Int.not_lt.mp (of_decide_eq_false h)

/-- What holds of all intervals and is kept when one is extended by a later one holds of the merged
ones. -/
theorem mergeStack_forall {P : α → Prop}
    (hextend : ∀ a b, P a → P b → lo a ≤ lo b → P (extend a b))
    (hlo : ∀ a b, lo (extend a b) = lo a) (rest : List α) : ∀ (below : List α) (top : α),
      (∀ a ∈ below, P a) → P top → (∀ b ∈ rest, P b) → (∀ b ∈ rest, lo top ≤ lo b) →
      rest.Pairwise (fun a b => lo a ≤ lo b) →
      ∀ a ∈ mergeStack lo hi extend below top rest, P a := by
  induction rest with
  | nil =>
      intro below top hbelow htop _ _ _ a ha
      rcases List.mem_cons.mp ha with rfl | ha
      · exact htop
      · exact hbelow a ha
  | cons b rest ih =>
      intro below top hbelow htop hrest hle hsorted
      obtain ⟨hfirst, hsorted⟩ := List.pairwise_cons.mp hsorted
      have hb := hrest b List.mem_cons_self
      have hrest' := fun c hc => hrest c (List.mem_cons_of_mem _ hc)
      unfold mergeStack
      split_ifs with hnew hmore
      · refine ih _ b (fun a ha => ?_) hb hrest' hfirst hsorted
        rcases List.mem_cons.mp ha with rfl | ha
        · exact htop
        · exact hbelow a ha
      · refine ih below _ hbelow (hextend top b htop hb (hle b List.mem_cons_self)) hrest'
          (fun c hc => ?_) hsorted
        rw [hlo]
        exact hle c (List.mem_cons_of_mem _ hc)
      · exact ih below top hbelow htop hrest' (fun c hc => hle c (List.mem_cons_of_mem _ hc)) hsorted

/-- Intervals on the stack, from the top down, are apart. -/
def Stacked (lo hi : α → Int) : List α → Prop :=
  List.Pairwise fun a b => hi b < lo a ∧ lo b ≤ lo a

theorem mergeStack_stacked (hlo : ∀ a b, lo (extend a b) = lo a) (rest : List α) :
    ∀ (below : List α) (top : α), Stacked lo hi (top :: below) →
      (∀ b ∈ rest, lo top ≤ lo b) → rest.Pairwise (fun a b => lo a ≤ lo b) →
      Stacked lo hi (mergeStack lo hi extend below top rest) := by
  induction rest with
  | nil => exact fun below top hstack _ _ => hstack
  | cons b rest ih =>
      intro below top hstack hle hsorted
      obtain ⟨hfirst, hsorted⟩ := List.pairwise_cons.mp hsorted
      obtain ⟨htop, hbelow⟩ := List.pairwise_cons.mp hstack
      unfold mergeStack
      split_ifs with hnew hmore
      · refine ih _ b (List.pairwise_cons.mpr ⟨fun a ha => ?_, hstack⟩) hfirst hsorted
        have hb := hle b List.mem_cons_self
        rcases List.mem_cons.mp ha with rfl | ha
        · exact ⟨hnew, hb⟩
        · have := htop a ha
          omega
      · refine ih below _ (List.pairwise_cons.mpr ⟨fun a ha => ?_, hbelow⟩) (fun c hc => ?_) hsorted
        · rw [hlo]
          exact htop a ha
        · rw [hlo]
          exact hle c (List.mem_cons_of_mem _ hc)
      · exact ih below top hstack (fun c hc => hle c (List.mem_cons_of_mem _ hc)) hsorted

/-- Each interval that extends the merged interval that it meets does so up to its own upper end;
`first` is the first interval merged there, and `top` the greatest upper end so far. -/
def ExtendsExactly (lo hi : α → Int) (Same : α → α → Prop) (first : α) (top : Int) : List α → Prop
  | [] => True
  | b :: rest =>
      if top < lo b then ExtendsExactly lo hi Same b (hi b) rest
      else (top < hi b → Same first b) ∧ ExtendsExactly lo hi Same first (max top (hi b)) rest

/-- Where every extension is exact, merging keeps the union. -/
theorem mergeStack_covers {Same : α → α → Prop} (hlo : ∀ a b, lo (extend a b) = lo a)
    (hsame : ∀ a b c, Same (extend a b) c ↔ Same a c)
    (hhi : ∀ a b, Same a b → hi (extend a b) = hi b) (x : Int) (rest : List α) :
    ∀ (below : List α) (first top : α), (∀ c, Same top c ↔ Same first c) →
      ExtendsExactly lo hi Same first (hi top) rest → (∀ b ∈ rest, lo top ≤ lo b) →
      rest.Pairwise (fun a b => lo a ≤ lo b) →
      ((∃ a ∈ mergeStack lo hi extend below top rest, Covers lo hi x a) ↔
        ∃ a ∈ top :: (below ++ rest), Covers lo hi x a) := by
  induction rest with
  | nil =>
      intro below first top _ _ _ _
      rw [List.append_nil]
      rfl
  | cons b rest ih =>
      intro below first top hfirst hexact hle hsorted
      obtain ⟨hb, hsorted⟩ := List.pairwise_cons.mp hsorted
      unfold mergeStack
      unfold ExtendsExactly at hexact
      by_cases hnew : hi top < lo b
      · rw [if_pos hnew] at hexact ⊢
        rw [ih (top :: below) b b (fun _ => Iff.rfl) hexact hb hsorted]
        simp only [List.mem_cons, List.mem_append, List.cons_append]
        constructor
        all_goals
          rintro ⟨a, ha, hcovers⟩
          refine ⟨a, ?_, hcovers⟩
          tauto
      · rw [if_neg hnew] at hexact ⊢
        obtain ⟨hext, hexact⟩ := hexact
        have hbtop := hle b List.mem_cons_self
        -- the interval on top and the one that it meets cover what the extended one covers
        have hunion : ∀ top', lo top' = lo top → hi top' = max (hi top) (hi b) →
            (Covers lo hi x top' ↔ Covers lo hi x top ∨ Covers lo hi x b) := by
          intro top' hlo' hhi'
          unfold Covers
          rw [hlo', hhi']
          omega
        have hmerged : ∀ top', lo top' = lo top → hi top' = max (hi top) (hi b) →
            (∀ c, Same top' c ↔ Same first c) →
            ((∃ a ∈ mergeStack lo hi extend below top' rest, Covers lo hi x a) ↔
              ∃ a ∈ top :: (below ++ b :: rest), Covers lo hi x a) := by
          intro top' hlo' hhi' hsame'
          rw [ih below first top' hsame' (hhi' ▸ hexact)
            (fun c hc => hlo' ▸ hle c (List.mem_cons_of_mem _ hc)) hsorted]
          simp only [List.mem_cons, List.mem_append, or_and_right, exists_or, exists_eq_left,
            hunion top' hlo' hhi']
          rw [or_assoc]
          exact or_congr_right or_left_comm
        by_cases hmore : hi top < hi b
        · rw [if_pos hmore]
          have htop : Same top b := (hfirst b).mpr (hext hmore)
          exact hmerged _ (hlo top b) (by rw [hhi top b htop]; omega) fun c =>
            (hsame top b c).trans (hfirst c)
        · rw [if_neg hmore]
          exact hmerged top rfl (by omega) hfirst

/-! ### Sorted results -/

variable {S : StdSort (before lo hi)}

theorem sort_lo (S : StdSort (before lo hi)) (l : List α) :
    (S.sort l).Pairwise fun a b => lo a ≤ lo b :=
  (S.sorted l).imp fun h => lo_le_of_not_before h

/-- Stacked intervals are apart from left to right when they are sorted. -/
theorem sort_apart {l : List α} (h : Stacked lo hi l) :
    (S.sort l).Pairwise fun a b => hi a < lo b := by
  have hsymm : l.Pairwise fun a b => (hi b < lo a ∧ lo b ≤ lo a) ∨ (hi a < lo b ∧ lo a ≤ lo b) :=
    List.Pairwise.imp (fun h => Or.inl h) h
  have hperm := ((S.perm l).pairwise_iff (fun h => Or.symm h)).mpr hsymm
  refine (hperm.and (S.sorted l)).imp fun {a b} h => ?_
  obtain ⟨⟨hba, hle⟩ | ⟨hab, -⟩, hnot⟩ := h
  · unfold before at hnot
    split_ifs at hnot with heq
    · have := of_decide_eq_false hnot
      omega
    · have := of_decide_eq_false hnot
      omega
  · exact hab

theorem merge_nil {l : List α} (h : S.sort l = []) : merge lo hi extend S l = [] := by
  unfold merge
  rw [h]

theorem merge_cons {l rest : List α} {b : α} (h : S.sort l = b :: rest) :
    merge lo hi extend S l = S.sort (mergeStack lo hi extend [] b rest) := by
  unfold merge
  rw [h]

/-- The merged intervals are sorted and apart. -/
theorem merge_apart (hlo : ∀ a b, lo (extend a b) = lo a) (l : List α) :
    (merge lo hi extend S l).Pairwise fun a b => hi a < lo b ∧ lo a ≤ lo b := by
  cases hsort : S.sort l with
  | nil =>
      rw [merge_nil hsort]
      exact List.Pairwise.nil
  | cons b rest =>
      have hsorted := sort_lo S l
      rw [hsort] at hsorted
      obtain ⟨hb, hrest⟩ := List.pairwise_cons.mp hsorted
      rw [merge_cons hsort]
      exact (sort_apart (mergeStack_stacked hlo rest [] b (List.pairwise_singleton _ _) hb
        hrest)).and (sort_lo S _)

theorem merge_forall {P : α → Prop} (hextend : ∀ a b, P a → P b → lo a ≤ lo b → P (extend a b))
    (hlo : ∀ a b, lo (extend a b) = lo a) {l : List α} (hl : ∀ a ∈ l, P a) :
    ∀ a ∈ merge lo hi extend S l, P a := by
  cases hsort : S.sort l with
  | nil =>
      rw [merge_nil hsort]
      exact fun a ha => absurd ha List.not_mem_nil
  | cons b rest =>
      have hsorted := sort_lo S l
      have hmem : ∀ a ∈ b :: rest, P a := fun a ha => hl a ((S.perm l).mem_iff.mp (hsort ▸ ha))
      rw [hsort] at hsorted
      obtain ⟨hb, hrest⟩ := List.pairwise_cons.mp hsorted
      rw [merge_cons hsort]
      intro a ha
      exact mergeStack_forall hextend hlo rest [] b (fun a ha => absurd ha List.not_mem_nil)
        (hmem b List.mem_cons_self) (fun c hc => hmem c (List.mem_cons_of_mem _ hc)) hb hrest a
        ((S.perm _).mem_iff.mp ha)

/-- The extensions are exact in the sorted intervals. -/
def MergesExactly (Same : α → α → Prop) (S : StdSort (before lo hi)) (l : List α) : Prop :=
  match S.sort l with
  | [] => True
  | b :: rest => ExtendsExactly lo hi Same b (hi b) rest

/-- Where the extensions are exact, the merged intervals cover what the intervals cover. -/
theorem merge_covers {Same : α → α → Prop} (hlo : ∀ a b, lo (extend a b) = lo a)
    (hsame : ∀ a b c, Same (extend a b) c ↔ Same a c)
    (hhi : ∀ a b, Same a b → hi (extend a b) = hi b) {l : List α}
    (hexact : MergesExactly Same S l) (x : Int) :
    (∃ a ∈ merge lo hi extend S l, Covers lo hi x a) ↔ ∃ a ∈ l, Covers lo hi x a := by
  unfold MergesExactly at hexact
  cases hsort : S.sort l with
  | nil =>
      have hnil := (S.perm l).length_eq
      rw [hsort] at hnil
      obtain rfl := List.length_eq_zero_iff.mp hnil.symm
      rw [merge_nil hsort]
  | cons b rest =>
      have hsorted := sort_lo S l
      rw [hsort] at hsorted hexact
      obtain ⟨hb, hrest⟩ := List.pairwise_cons.mp hsorted
      have hmem : ∀ a, a ∈ b :: rest ↔ a ∈ l := fun a => by
        rw [← hsort]
        exact (S.perm l).mem_iff
      rw [merge_cons hsort]
      simp only [(S.perm _).mem_iff]
      rw [mergeStack_covers hlo hsame hhi x rest [] b b (fun _ => Iff.rfl) hexact hb hrest,
        List.nil_append]
      simp only [hmem]

end IntervalMerge

end OpenRoad

/-!
Sets of integers kept as closed spans that neither overlap nor touch: a span that is inserted is
joined with those it meets. The spans of an intersection are those of the pairs.
-/

namespace OpenRoad.JoinedSpans

structure Span where
  lower : Int
  upper : Int
  proper : lower ≤ upper
  deriving DecidableEq

namespace Span

def contains (s : Span) (i : Int) : Bool := s.lower ≤ i && i ≤ s.upper

@[simp] theorem contains_iff {s : Span} {i : Int} :
    s.contains i = true ↔ s.lower ≤ i ∧ i ≤ s.upper := by simp [contains]

/-- The smallest span around two. -/
def hull (s t : Span) : Span where
  lower := min s.lower t.lower
  upper := max s.upper t.upper
  proper := (min_le_left _ _).trans (s.proper.trans (le_max_left _ _))

def intersects (s t : Span) : Bool := s.lower ≤ t.upper && t.lower ≤ s.upper

end Span

/-- The spans follow one another with gaps between them. -/
structure SpanSet where
  spans : List Span
  apart : spans.Pairwise fun s t => s.upper + 1 < t.lower

namespace SpanSet

def empty : SpanSet := ⟨[], List.Pairwise.nil⟩

def contains (set : SpanSet) (i : Int) : Bool := set.spans.any (·.contains i)

theorem contains_iff {set : SpanSet} {i : Int} :
    set.contains i = true ↔ ∃ s ∈ set.spans, s.lower ≤ i ∧ i ≤ s.upper := by
  simp [contains]

@[simp] theorem not_contains_empty (i : Int) : empty.contains i = false := rfl

/-! ### Insertion -/

/-- A span among spans that follow one another: what it meets on the way is joined with it. -/
def join (s : Span) : List Span → List Span
  | [] => [s]
  | t :: rest =>
      if s.upper + 1 < t.lower then s :: t :: rest
      else if t.upper + 1 < s.lower then t :: join s rest
      else join (s.hull t) rest

theorem exists_mem_join (i : Int) : ∀ (s : Span) (spans : List Span),
    (∃ t ∈ join s spans, t.lower ≤ i ∧ i ≤ t.upper) ↔
      (s.lower ≤ i ∧ i ≤ s.upper) ∨ ∃ t ∈ spans, t.lower ≤ i ∧ i ≤ t.upper
  | s, [] => by simp [join]
  | s, t :: rest => by
      rw [join]
      split_ifs with hbefore hbehind
      · simp
      · have ih := exists_mem_join i s rest
        simp only [List.exists_mem_cons_iff, ih]
        exact or_left_comm
      · -- spans that meet have no gap between them
        have hhull : ((s.hull t).lower ≤ i ∧ i ≤ (s.hull t).upper) ↔
            (s.lower ≤ i ∧ i ≤ s.upper) ∨ (t.lower ≤ i ∧ i ≤ t.upper) := by
          have hs := s.proper
          have ht := t.proper
          simp only [Span.hull, min_le_iff, le_max_iff]
          omega
        rw [exists_mem_join i (s.hull t) rest, hhull, List.exists_mem_cons_iff, or_assoc]

/-- What lies before a span and before others lies before what they are joined to. -/
theorem lt_lower_of_mem_join {b : Int} : ∀ {s : Span} {spans : List Span}, b < s.lower →
    (∀ t ∈ spans, b < t.lower) → ∀ t ∈ join s spans, b < t.lower
  | s, [], hs, _, t, ht => by
      obtain rfl := List.mem_singleton.mp ht
      exact hs
  | s, first :: rest, hs, hspans, t, ht => by
      obtain ⟨hfirst, hrest⟩ := List.forall_mem_cons.mp hspans
      rw [join] at ht
      split_ifs at ht with hbefore hbehind
      · rcases List.mem_cons.mp ht with rfl | ht
        · exact hs
        · exact hspans t ht
      · rcases List.mem_cons.mp ht with rfl | ht
        · exact hfirst
        · exact lt_lower_of_mem_join hs hrest t ht
      · exact lt_lower_of_mem_join (lt_min hs hfirst) hrest t ht

theorem join_apart : ∀ (s : Span) {spans : List Span},
    spans.Pairwise (fun s t => s.upper + 1 < t.lower) →
      (join s spans).Pairwise fun s t => s.upper + 1 < t.lower
  | s, [], _ => List.pairwise_singleton _ _
  | s, t :: rest, h => by
      obtain ⟨hfirst, hrest⟩ := List.pairwise_cons.mp h
      rw [join]
      split_ifs with hbefore hbehind
      · refine List.pairwise_cons.mpr ⟨fun u hu => ?_, h⟩
        rcases List.mem_cons.mp hu with rfl | hu
        · exact hbefore
        · have := t.proper
          have := hfirst u hu
          omega
      · exact List.pairwise_cons.mpr
          ⟨lt_lower_of_mem_join hbehind hfirst, join_apart s hrest⟩
      · exact join_apart (s.hull t) hrest

def insert (set : SpanSet) (s : Span) : SpanSet := ⟨join s set.spans, join_apart s set.apart⟩

theorem contains_insert {set : SpanSet} {s : Span} {i : Int} :
    (set.insert s).contains i = true ↔ (s.lower ≤ i ∧ i ≤ s.upper) ∨ set.contains i = true := by
  rw [contains_iff, contains_iff, insert]
  exact exists_mem_join i s set.spans

/-! ### Intersection -/

def interSpan (s t : Span) : Option Span :=
  if h : max s.lower t.lower ≤ min s.upper t.upper then
    some ⟨max s.lower t.lower, min s.upper t.upper, h⟩
  else none

/-- The spans of the intersection of two sets. -/
def inter (a b : SpanSet) : List Span := a.spans.flatMap fun s => b.spans.filterMap (interSpan s)

theorem mem_inter {a b : SpanSet} {u : Span} (hu : u ∈ a.inter b) {i : Int} (hlower : u.lower ≤ i)
    (hupper : i ≤ u.upper) : a.contains i = true ∧ b.contains i = true := by
  obtain ⟨s, hs, hu⟩ := List.mem_flatMap.mp hu
  obtain ⟨t, ht, hu⟩ := List.mem_filterMap.mp hu
  rw [interSpan] at hu
  split at hu
  · obtain rfl := Option.some.inj hu
    obtain ⟨hsl, htl⟩ := max_le_iff.mp hlower
    obtain ⟨hsu, htu⟩ := le_min_iff.mp hupper
    exact ⟨contains_iff.mpr ⟨s, hs, hsl, hsu⟩, contains_iff.mpr ⟨t, ht, htl, htu⟩⟩
  · exact absurd hu (by simp)

theorem exists_mem_inter {a b : SpanSet} {i : Int} (ha : a.contains i = true)
    (hb : b.contains i = true) : ∃ u ∈ a.inter b, u.lower ≤ i ∧ i ≤ u.upper := by
  obtain ⟨s, hs, hsl, hsu⟩ := contains_iff.mp ha
  obtain ⟨t, ht, htl, htu⟩ := contains_iff.mp hb
  have hle : max s.lower t.lower ≤ min s.upper t.upper :=
    (max_le hsl htl).trans (le_min hsu htu)
  refine ⟨⟨max s.lower t.lower, min s.upper t.upper, hle⟩, List.mem_flatMap.mpr ⟨s, hs,
    List.mem_filterMap.mpr ⟨t, ht, ?_⟩⟩, max_le hsl htl, le_min hsu htu⟩
  rw [interSpan, dif_pos hle]

end SpanSet

end OpenRoad.JoinedSpans
