import OpenRoad.TopQueue
import Mathlib.Data.List.Nodup
import Mathlib.Data.Finset.Card
import Mathlib.Data.Finset.Dedup

/-!
Best-first flooding: the point of least weight is popped from a queue and probed; if the probe
fails, the neighbours of the point that are inside and were not visited yet are pushed. Where every
point inside has a neighbour that is nearer to the start, the points are popped in the order of
their weights.
-/

namespace OpenRoad.BestFirst

variable {α : Type*}

/-- What a search depends on; `probe` and `weigh` may fail. -/
structure Search (α : Type*) where
  probe : α → Option Bool
  weigh : α → Option Int
  neighbors : α → List α
  inside : α → Bool
  start : α

inductive Outcome (α : Type*) where
  | found (p : α)
  | notFound
  | failed
  | outOfFuel
  deriving DecidableEq

structure Entry (α : Type*) where
  weight : Int
  point : α
  deriving DecidableEq

/-- The order of the queue: the nearest point is its top. -/
def farther (a b : Entry α) : Bool := b.weight < a.weight

structure State (α : Type*) where
  queue : List (Entry α)
  visited : List α

namespace Search

section Run

variable [DecidableEq α] (S : Search α) (Q : TopQueue (@farther α))

/-- A neighbour is pushed unless it was visited or is not inside. -/
def visit (st : State α) (p : α) : Option (State α) :=
  if p ∈ st.visited then some st
  else if !S.inside p then some st
  else (S.weigh p).map fun weight => ⟨⟨weight, p⟩ :: st.queue, p :: st.visited⟩

def expand (st : State α) (ps : List α) : Option (State α) := ps.foldlM S.visit st

def run : Nat → State α → Outcome α
  | 0, _ => .outOfFuel
  | fuel + 1, st =>
      match Q.pop st.queue with
      | none => .notFound
      | some (top, rest) =>
          match S.probe top.point with
          | none => .failed
          | some true => .found top.point
          | some false =>
              match S.expand ⟨rest, st.visited⟩ (S.neighbors top.point) with
              | none => .failed
              | some st => run fuel st

def search (fuel : Nat) : Outcome α := S.run Q fuel ⟨[⟨0, S.start⟩], [S.start]⟩

end Run

/-! ### The invariant -/

section Invariant

variable (S : Search α)

/-- The start is inside or next to a point inside. -/
def Touches : Prop := S.inside S.start = true ∨ ∃ p ∈ S.neighbors S.start, S.inside p = true

/-- A point that the search may visit. -/
def Open (p : α) : Prop := p = S.start ∨ S.inside p = true

/-- The points popped so far were probed in vain, and what is next to them was visited. -/
structure Inv (dist : α → Int) (popped : List α) (st : State α) : Prop where
  start_mem : S.start ∈ st.visited
  visited_cases : ∀ v ∈ st.visited, v = S.start ∨ S.inside v = true ∧ S.Touches
  settled : ∀ v ∈ st.visited, v ∈ popped ∨ ⟨dist v, v⟩ ∈ st.queue
  queued : ∀ e ∈ st.queue, e.point ∈ st.visited ∧ e.weight = dist e.point
  probed : ∀ v ∈ popped, S.probe v = some false
  spread : ∀ v ∈ popped, ∀ w ∈ S.neighbors v, S.inside w = true → w ∈ st.visited
  nodup : st.visited.Nodup
  length : st.queue.length + popped.length = st.visited.length

end Invariant

section

variable {S : Search α} {dist : α → Int}

theorem Inv.open_of_visited {popped : List α} {st : State α} (h : S.Inv dist popped st) {v : α}
    (hv : v ∈ st.visited) : S.Open v := (h.visited_cases v hv).imp_right And.left

theorem Inv.init (hstart : dist S.start = 0) : S.Inv dist [] ⟨[⟨0, S.start⟩], [S.start]⟩ where
  start_mem := List.mem_singleton_self _
  visited_cases := fun _ hv => Or.inl (List.mem_singleton.mp hv)
  settled := fun v hv => by
    obtain rfl := List.mem_singleton.mp hv
    rw [hstart]
    exact Or.inr (List.mem_singleton_self _)
  queued := fun e he => by
    obtain rfl := List.mem_singleton.mp he
    exact ⟨List.mem_singleton_self _, hstart.symm⟩
  probed := fun _ hv => nomatch hv
  spread := fun _ hv => nomatch hv
  nodup := List.nodup_singleton _
  length := rfl

/-- What pushing some of the points `ps` keeps: nothing leaves the queue, and what is new was
pushed. -/
structure Pushed (S : Search α) (dist : α → Int) (ps : List α) (st st' : State α) : Prop where
  mono : ∀ v ∈ st.visited, v ∈ st'.visited
  queue_mono : ∀ e ∈ st.queue, e ∈ st'.queue
  fresh : ∀ v ∈ st'.visited,
    v ∈ st.visited ∨ (v ∈ ps ∧ S.inside v = true) ∧ ⟨dist v, v⟩ ∈ st'.queue
  queued : ∀ e ∈ st'.queue, e ∈ st.queue ∨ e.point ∈ st'.visited ∧ e.weight = dist e.point
  nodup : st.visited.Nodup → st'.visited.Nodup
  length : st'.queue.length + st.visited.length = st.queue.length + st'.visited.length

theorem Pushed.refl (ps : List α) (st : State α) : Pushed S dist ps st st :=
  ⟨fun _ => id, fun _ => id, fun _ => Or.inl, fun _ => Or.inl, id, rfl⟩

theorem Pushed.trans {ps : List α} {st st₁ st₂ : State α} (h₁ : Pushed S dist ps st st₁)
    (h₂ : Pushed S dist ps st₁ st₂) : Pushed S dist ps st st₂ where
  mono := fun v hv => h₂.mono v (h₁.mono v hv)
  queue_mono := fun e he => h₂.queue_mono e (h₁.queue_mono e he)
  fresh := fun v hv => by
    rcases h₂.fresh v hv with hv | hv
    · exact (h₁.fresh v hv).imp_right fun hv => ⟨hv.1, h₂.queue_mono _ hv.2⟩
    · exact Or.inr hv
  queued := fun e he => by
    rcases h₂.queued e he with he | he
    · exact (h₁.queued e he).imp_right fun he => ⟨h₂.mono _ he.1, he.2⟩
    · exact Or.inr he
  nodup := fun h => h₂.nodup (h₁.nodup h)
  length := by
    have h₁ := h₁.length
    have h₂ := h₂.length
    omega

variable [DecidableEq α]

/-- A neighbour was visited afterwards, or is not inside. -/
theorem visit_spec (hweigh : ∀ v, S.Open v → S.weigh v = some (dist v)) {ps : List α}
    (st : State α) {p : α} (hp : p ∈ ps) :
    ∃ st', S.visit st p = some st' ∧ Pushed S dist ps st st' ∧
      (S.inside p = true → p ∈ st'.visited) := by
  unfold visit
  by_cases hmem : p ∈ st.visited
  · exact ⟨st, if_pos hmem, Pushed.refl ps st, fun _ => hmem⟩
  · rw [if_neg hmem]
    by_cases hin : S.inside p = true
    · rw [if_neg (by simp [hin]), hweigh p (Or.inr hin)]
      refine ⟨_, rfl, ?_, fun _ => List.mem_cons_self⟩
      exact {
        mono := fun v hv => List.mem_cons_of_mem _ hv
        queue_mono := fun e he => List.mem_cons_of_mem _ he
        fresh := fun v hv => by
          rcases List.mem_cons.mp hv with rfl | hv
          · exact Or.inr ⟨⟨hp, hin⟩, List.mem_cons_self⟩
          · exact Or.inl hv
        queued := fun e he => by
          rcases List.mem_cons.mp he with rfl | he
          · exact Or.inr ⟨List.mem_cons_self, rfl⟩
          · exact Or.inl he
        nodup := fun h => List.nodup_cons.mpr ⟨hmem, h⟩
        length := by
          simp only [List.length_cons]
          omega }
    · exact ⟨st, if_pos (by simpa using hin), Pushed.refl ps st, fun h => absurd h hin⟩

theorem expand_spec (hweigh : ∀ v, S.Open v → S.weigh v = some (dist v)) {ps : List α} :
    ∀ (qs : List α) (st : State α), (∀ q ∈ qs, q ∈ ps) →
      ∃ st', S.expand st qs = some st' ∧ Pushed S dist ps st st' ∧
        ∀ p ∈ qs, S.inside p = true → p ∈ st'.visited := by
  intro qs
  induction qs with
  | nil => exact fun st _ => ⟨st, rfl, Pushed.refl ps st, fun _ hp => nomatch hp⟩
  | cons p qs ih =>
      intro st hsub
      obtain ⟨st₁, hvisit, hpush₁, hp⟩ := visit_spec hweigh st (hsub p List.mem_cons_self)
      obtain ⟨st₂, hexpand, hpush₂, hqs⟩ := ih st₁ fun q hq => hsub q (List.mem_cons_of_mem _ hq)
      refine ⟨st₂, ?_, hpush₁.trans hpush₂, fun q hq hin => ?_⟩
      · unfold expand at hexpand ⊢
        rw [List.foldlM_cons, hvisit]
        exact hexpand
      · rcases List.mem_cons.mp hq with rfl | hq
        · exact hpush₂.mono _ (hp hin)
        · exact hqs q hq hin

omit [DecidableEq α] in
/-- A point is popped, probed in vain, and its neighbours are pushed. -/
theorem Inv.step {Q : TopQueue (@farther α)} {popped : List α} {st st' : State α} {top : Entry α}
    {rest : List (Entry α)} (h : S.Inv dist popped st) (hpop : Q.pop st.queue = some (top, rest))
    (hprobe : S.probe top.point = some false)
    (hpush : Pushed S dist (S.neighbors top.point) ⟨rest, st.visited⟩ st')
    (hspread : ∀ p ∈ S.neighbors top.point, S.inside p = true → p ∈ st'.visited) :
    S.Inv dist (top.point :: popped) st' := by
  obtain ⟨htop, hweight⟩ := h.queued top (Q.mem_of_pop hpop)
  exact {
    start_mem := hpush.mono _ h.start_mem
    visited_cases := fun v hv => by
      rcases hpush.fresh v hv with hv | ⟨⟨hneighbor, hin⟩, -⟩
      · exact h.visited_cases v hv
      · refine Or.inr ⟨hin, ?_⟩
        rcases h.visited_cases _ htop with hstart | ⟨-, htouches⟩
        · exact Or.inr ⟨v, hstart ▸ hneighbor, hin⟩
        · exact htouches
    settled := fun v hv => by
      rcases hpush.fresh v hv with hv | ⟨-, hqueue⟩
      · rcases h.settled v hv with hpopped | hqueue
        · exact Or.inl (List.mem_cons_of_mem _ hpopped)
        · rcases (Q.mem_pop_iff hpop).mp hqueue with heq | hrest
          · exact Or.inl (by rw [← heq]; exact List.mem_cons_self)
          · exact Or.inr (hpush.queue_mono _ hrest)
      · exact Or.inr hqueue
    queued := fun e he => by
      rcases hpush.queued e he with he | he
      · obtain ⟨hvisited, hdist⟩ := h.queued e ((Q.mem_pop_iff hpop).mpr (Or.inr he))
        exact ⟨hpush.mono _ hvisited, hdist⟩
      · exact he
    probed := fun v hv => by
      rcases List.mem_cons.mp hv with rfl | hv
      · exact hprobe
      · exact h.probed v hv
    spread := fun v hv w hw hin => by
      rcases List.mem_cons.mp hv with rfl | hv
      · exact hspread w hw hin
      · exact hpush.mono _ (h.spread v hv w hw hin)
    nodup := hpush.nodup h.nodup
    length := by
      have hlen := h.length
      have hpushed := hpush.length
      have hperm := (Q.pop_perm hpop).length_eq
      simp only [List.length_cons] at hperm hpushed ⊢
      omega }

/-! ### How a run ends -/

/-- What a run comes to in the state in which it ends. -/
def Ends (S : Search α) (Q : TopQueue (@farther α)) (st : State α) : Outcome α → Prop
  | .found p => ∃ top rest, Q.pop st.queue = some (top, rest) ∧ top.point = p ∧
      S.probe p = some true
  | .notFound => st.queue = []
  | .failed => ∃ top rest, Q.pop st.queue = some (top, rest) ∧ S.probe top.point = none
  | .outOfFuel => False

/-- With fuel for each point that can be visited, a run ends in a state with the invariant. -/
theorem run_ends (hweigh : ∀ v, S.Open v → S.weigh v = some (dist v)) {points : List α}
    (hpoints : ∀ v, S.inside v = true → v ∈ points) (Q : TopQueue (@farther α)) (fuel : Nat) :
    ∀ (popped : List α) (st : State α), S.Inv dist popped st →
      points.length + 2 ≤ fuel + popped.length →
      ∃ popped' st', S.Inv dist popped' st' ∧ Ends S Q st' (S.run Q fuel st) := by
  induction fuel with
  | zero =>
      intro popped st hinv hfuel
      have hsub : st.visited.toFinset ⊆ (S.start :: points).toFinset := by
        intro v hv
        rw [List.mem_toFinset] at hv ⊢
        rcases hinv.open_of_visited hv with rfl | hin
        · exact List.mem_cons_self
        · exact List.mem_cons_of_mem _ (hpoints v hin)
      have hcard := Finset.card_le_card hsub
      rw [List.toFinset_card_of_nodup hinv.nodup] at hcard
      have hle := List.toFinset_card_le (S.start :: points)
      have hlen := hinv.length
      rw [List.length_cons] at hle
      omega
  | succ fuel ih =>
      intro popped st hinv hfuel
      unfold run
      cases hpop : Q.pop st.queue with
      | none => exact ⟨popped, st, hinv, Q.pop_none hpop⟩
      | some next =>
          obtain ⟨top, rest⟩ := next
          dsimp only
          cases hprobe : S.probe top.point with
          | none => exact ⟨popped, st, hinv, top, rest, hpop, hprobe⟩
          | some free =>
              cases free with
              | true => exact ⟨popped, st, hinv, top, rest, hpop, rfl, hprobe⟩
              | false =>
                  obtain ⟨st', hexpand, hpush, hspread⟩ := expand_spec hweigh
                    (S.neighbors top.point) ⟨rest, st.visited⟩ fun _ => id
                  dsimp only
                  rw [hexpand]
                  refine ih _ _ (hinv.step hpop hprobe hpush hspread) ?_
                  rw [List.length_cons]
                  omega

end

/-! ### Nearest points first -/

section

variable (S : Search α)

/-- The weight is a distance from the start, and from a point inside a step can be taken that comes
nearer to the start. -/
structure Graded (dist : α → Int) : Prop where
  weigh : ∀ v, S.Open v → S.weigh v = some (dist v)
  start : dist S.start = 0
  nonneg : ∀ v, S.Open v → 0 ≤ dist v
  zero : ∀ v, S.Open v → dist v ≤ 0 → v = S.start
  closer : S.Touches → ∀ v, S.inside v = true → v ≠ S.start →
    ∃ w, S.Open w ∧ v ∈ S.neighbors w ∧ dist w < dist v

def Nearer (p q : α) : Prop := ∃ d d', S.weigh p = some d ∧ S.weigh q = some d' ∧ d < d'

def NoFarther (p q : α) : Prop := ∃ d d', S.weigh p = some d ∧ S.weigh q = some d' ∧ d ≤ d'

/-- The outcome is a nearest point among those inside that pass the probe, or there is none. -/
def Complete : Outcome α → Prop
  | .found p => S.probe p = some true ∧
      ∀ q, S.inside q = true → S.probe q = some true → S.NoFarther p q
  | .notFound => ∀ q, S.inside q = true → S.probe q ≠ some true
  | _ => False

/-- The start passes the probe, or else: its probe does not fail; if it is inside or next to it, each
point inside whose probe fails is farther than one that passes; if it is not, none inside passes. -/
def Searchable : Prop :=
  S.probe S.start = some true ∨
    S.probe S.start ≠ none ∧
      (S.Touches → ∀ p, S.inside p = true → S.probe p = none →
        ∃ q, S.inside q = true ∧ S.probe q = some true ∧ S.Nearer q p) ∧
      (¬S.Touches → ∀ p, S.inside p = true → S.probe p ≠ some true)

variable {S} {dist : α → Int} {popped : List α} {st : State α} {Q : TopQueue (@farther α)}
  {top : Entry α} {rest : List (Entry α)}

/-- Nothing in the queue is nearer than what is popped. -/
theorem top_le (hpop : Q.pop st.queue = some (top, rest)) :
    ∀ e ∈ st.queue, top.weight ≤ e.weight := by
  intro e he
  rcases (Q.mem_pop_iff hpop).mp he with rfl | hrest
  · exact le_rfl
  · have hless := Q.pop_top hpop e hrest
    unfold farther at hless
    rw [decide_eq_false_iff_not, not_lt] at hless
    exact hless

/-- A point with a popped neighbour, or the start, is popped or queued. -/
theorem Inv.settled_of_popped (hinv : S.Inv dist popped st) {v w : α} (hv : S.inside v = true)
    (hnext : v ∈ S.neighbors w) (hw : w ∈ popped) (hnot : v ∉ popped) :
    ⟨dist v, v⟩ ∈ st.queue :=
  (hinv.settled v (hinv.spread w hw v hnext hv)).resolve_left hnot

/-- Some point in the queue is as near as a point that was not popped. -/
theorem Inv.queued_le (hinv : S.Inv dist popped st) (hgraded : S.Graded dist)
    (htouches : S.Touches) {v : α} (hopen : S.Open v) (hnot : v ∉ popped) :
    ∃ e ∈ st.queue, e.weight ≤ dist v := by
  -- by induction on the distance, along nearer and nearer points
  induction hn : (dist v).toNat using Nat.strong_induction_on generalizing v with
  | _ n ih =>
      rcases hopen with rfl | hin
      · exact ⟨_, (hinv.settled S.start hinv.start_mem).resolve_left hnot, le_rfl⟩
      · by_cases hstart : v = S.start
        · subst hstart
          exact ⟨_, (hinv.settled S.start hinv.start_mem).resolve_left hnot, le_rfl⟩
        · obtain ⟨w, hw, hnext, hlt⟩ := hgraded.closer htouches v hin hstart
          by_cases hpopped : w ∈ popped
          · exact ⟨_, hinv.settled_of_popped hin hnext hpopped hnot, le_rfl⟩
          · have hnonneg := hgraded.nonneg w hw
            obtain ⟨e, he, hle⟩ := ih (dist w).toNat (by omega) hw hpopped rfl
            exact ⟨e, he, hle.trans hlt.le⟩

/-- A point that is no farther than the top and was not popped is in the queue. -/
theorem Inv.mem_queue (hinv : S.Inv dist popped st) (hgraded : S.Graded dist)
    (htouches : S.Touches) (hpop : Q.pop st.queue = some (top, rest)) {v : α}
    (hin : S.inside v = true) (hnot : v ∉ popped) (hle : dist v ≤ top.weight) :
    ⟨dist v, v⟩ ∈ st.queue := by
  by_cases hstart : v = S.start
  · subst hstart
    exact (hinv.settled S.start hinv.start_mem).resolve_left hnot
  · obtain ⟨w, hw, hnext, hlt⟩ := hgraded.closer htouches v hin hstart
    by_cases hpopped : w ∈ popped
    · exact hinv.settled_of_popped hin hnext hpopped hnot
    · obtain ⟨e, he, hle'⟩ := hinv.queued_le hgraded htouches hw hpopped
      have htop := top_le hpop e he
      omega

/-- A point that passes the probe, or whose probe fails, was not popped. -/
theorem Inv.not_popped (hinv : S.Inv dist popped st) {v : α} (h : S.probe v ≠ some false) :
    v ∉ popped := fun hv => h (hinv.probed v hv)

/-- As long as the start is not popped, it is the top. -/
theorem Inv.top_start (hinv : S.Inv dist popped st) (hgraded : S.Graded dist)
    (hpop : Q.pop st.queue = some (top, rest)) (hnot : S.start ∉ popped) :
    top.point = S.start := by
  obtain ⟨hvisited, hweight⟩ := hinv.queued top (Q.mem_of_pop hpop)
  have hle := top_le hpop _ ((hinv.settled S.start hinv.start_mem).resolve_left hnot)
  dsimp only at hle
  rw [hgraded.start, hweight] at hle
  exact hgraded.zero _ (hinv.open_of_visited hvisited) hle

/-- The top is at most as far as a point inside that was not popped. -/
theorem Inv.top_noFarther (hinv : S.Inv dist popped st) (hgraded : S.Graded dist)
    (htouches : S.Touches) (hpop : Q.pop st.queue = some (top, rest)) {v : α}
    (hin : S.inside v = true) (hnot : v ∉ popped) : dist top.point ≤ dist v := by
  obtain ⟨e, he, hle⟩ := hinv.queued_le hgraded htouches (Or.inr hin) hnot
  have htop := top_le hpop e he
  have hweight := (hinv.queued top (Q.mem_of_pop hpop)).2
  omega

/-- A run that ends does what it should if the start can be found or the probes are in order. -/
theorem Inv.complete_of_ends (hinv : S.Inv dist popped st) (hgraded : S.Graded dist)
    (hsearchable : S.Searchable) {outcome : Outcome α} (hends : Ends S Q st outcome) :
    S.Complete outcome := by
  have hstart_popped : st.queue = [] → S.start ∈ popped := fun hnil => by
    have hsettled := hinv.settled S.start hinv.start_mem
    rw [hnil] at hsettled
    exact hsettled.resolve_right List.not_mem_nil
  cases outcome with
  | found p =>
      obtain ⟨top, rest, hpop, rfl, hprobe⟩ := hends
      refine ⟨hprobe, fun q hq hqprobe => ?_⟩
      have hvisited := (hinv.queued top (Q.mem_of_pop hpop)).1
      have hopen := hinv.open_of_visited hvisited
      refine ⟨dist top.point, dist q, hgraded.weigh _ hopen, hgraded.weigh _ (Or.inr hq), ?_⟩
      by_cases htouches : S.Touches
      · exact hinv.top_noFarther hgraded htouches hpop hq
          (hinv.not_popped (by rw [hqprobe]; decide))
      · -- only the start was visited
        have htop := (hinv.visited_cases _ hvisited).resolve_right fun h => htouches h.2
        rw [htop, hgraded.start]
        exact hgraded.nonneg q (Or.inr hq)
  | notFound =>
      intro q hq hqprobe
      have hstart := hstart_popped hends
      rcases hsearchable with hpass | ⟨-, -, hapart⟩
      · exact hinv.not_popped (by rw [hpass]; decide) hstart
      · by_cases htouches : S.Touches
        · obtain ⟨e, he, -⟩ := hinv.queued_le hgraded htouches (Or.inr hq)
            (hinv.not_popped (by rw [hqprobe]; decide))
          rw [show st.queue = [] from hends] at he
          cases he
        · exact hapart htouches q hq hqprobe
  | failed =>
      obtain ⟨top, rest, hpop, hprobe⟩ := hends
      have hvisited := (hinv.queued top (Q.mem_of_pop hpop)).1
      rcases hsearchable with hpass | ⟨hnotFail, hnear, -⟩
      · have htop := hinv.top_start hgraded hpop (hinv.not_popped (by rw [hpass]; decide))
        rw [htop, hpass] at hprobe
        cases hprobe
      · rcases hinv.visited_cases _ hvisited with htop | ⟨hin, htouches⟩
        · exact hnotFail (htop ▸ hprobe)
        · obtain ⟨q, hq, hqprobe, d, d', hd, hd', hlt⟩ := hnear htouches _ hin hprobe
          have hle := hinv.top_noFarther hgraded htouches hpop hq
            (hinv.not_popped (by rw [hqprobe]; decide))
          rw [hgraded.weigh q (Or.inr hq)] at hd
          rw [hgraded.weigh _ (Or.inr hin)] at hd'
          cases hd
          cases hd'
          omega
  | outOfFuel => exact hends.elim

/-! ### Ties in favour of one point -/

variable [DecidableEq α]

/-- Of two points equally near, `p` comes first. -/
def fartherThan (p : α) (a b : Entry α) : Bool :=
  b.weight < a.weight || (b.weight = a.weight && b.point = p && a.point ≠ p)

theorem fartherThan_irrefl (p : α) (a : Entry α) : fartherThan p a a = false := by
  simp [fartherThan]

theorem fartherThan_trans (p : α) (a b c : Entry α) (hab : fartherThan p a b = true)
    (hbc : fartherThan p b c = true) : fartherThan p a c = true := by
  simp only [fartherThan, Bool.or_eq_true, Bool.and_eq_true, decide_eq_true_eq] at hab hbc ⊢
  rcases hab with hab | ⟨⟨hab, hb⟩, ha⟩ <;> rcases hbc with hbc | ⟨⟨hbc, hc⟩, hb'⟩
  · exact Or.inl (hbc.trans hab)
  · exact Or.inl (hbc ▸ hab)
  · exact Or.inl (hab ▸ hbc)
  · exact absurd hb hb'

/-- The queue that pops `p` before the other points equally near. -/
def queueFor (p : α) : TopQueue (@farther α) :=
  (TopQueue.firstBest (fartherThan p) (fartherThan_irrefl p) (fartherThan_trans p)).coarsen
    fun a b h => by
      unfold farther at h
      simp only [fartherThan, h, Bool.true_or]

/-- With ties in its favour, a point in the queue as near as the top is the top. -/
theorem queueFor_top {p : α} (hpop : (queueFor p).pop st.queue = some (top, rest))
    (hmem : ⟨top.weight, p⟩ ∈ st.queue) : top.point = p := by
  by_contra hne
  rcases ((queueFor p).mem_pop_iff hpop).mp hmem with heq | hrest
  · exact hne (congrArg Entry.point heq).symm
  · have hless : fartherThan p top ⟨top.weight, p⟩ = false :=
      (TopQueue.firstBest (fartherThan p) (fartherThan_irrefl p) (fartherThan_trans p)).pop_top
        hpop _ hrest
    simp [fartherThan, hne] at hless

/-- If every run with ties in favour of one point is complete, the probes are in order. -/
theorem searchable_of_complete (hgraded : S.Graded dist) {points : List α}
    (hpoints : ∀ v, S.inside v = true → v ∈ points)
    (hcomplete : ∀ p, ∃ fuel, points.length + 2 ≤ fuel ∧ S.Complete (S.search (queueFor p) fuel)) :
    S.Searchable := by
  have hends : ∀ p, ∃ popped st outcome, S.Inv dist popped st ∧ Ends S (queueFor p) st outcome ∧
      S.Complete outcome := by
    intro p
    obtain ⟨fuel, hfuel, hgood⟩ := hcomplete p
    obtain ⟨popped, st, hinv, hends⟩ := run_ends hgraded.weigh hpoints (queueFor p) fuel [] _
      (Inv.init hgraded.start) hfuel
    exact ⟨popped, st, _, hinv, hends, hgood⟩
  by_cases hpass : S.probe S.start = some true
  · exact Or.inl hpass
  · refine Or.inr ⟨fun hfail => ?_, fun htouches p hp hfail => ?_, fun hapart p hp hprobe => ?_⟩
    · -- the start is popped first, and its probe fails
      obtain ⟨popped, st, outcome, hinv, hend, hgood⟩ := hends S.start
      have hnot : S.start ∉ popped := hinv.not_popped (by rw [hfail]; decide)
      cases outcome with
      | found q =>
          obtain ⟨top, rest, hpop, rfl, hprobe⟩ := hend
          rw [hinv.top_start hgraded hpop hnot, hfail] at hprobe
          cases hprobe
      | notFound =>
          have hsettled := (hinv.settled S.start hinv.start_mem).resolve_left hnot
          rw [show st.queue = [] from hend] at hsettled
          cases hsettled
      | failed => exact hgood.elim
      | outOfFuel => exact hgood.elim
    · obtain ⟨popped, st, outcome, hinv, hend, hgood⟩ := hends p
      have hnot : p ∉ popped := hinv.not_popped (by rw [hfail]; decide)
      cases outcome with
      | found q =>
          obtain ⟨top, rest, hpop, rfl, hprobe⟩ := hend
          obtain ⟨hvisited, hweight⟩ := hinv.queued top ((queueFor p).mem_of_pop hpop)
          have hin : S.inside top.point = true := by
            rcases hinv.open_of_visited hvisited with hstart | hin
            · exact absurd (hstart ▸ hprobe) hpass
            · exact hin
          refine ⟨top.point, hin, hprobe, dist top.point, dist p, hgraded.weigh _ (Or.inr hin),
            hgraded.weigh _ (Or.inr hp), ?_⟩
          have hle := hinv.top_noFarther hgraded htouches hpop hp hnot
          refine lt_of_le_of_ne hle fun heq => ?_
          -- a tie would have been decided in favour of `p`
          have hmem := hinv.mem_queue hgraded htouches hpop hp hnot (by omega)
          rw [← heq, ← hweight] at hmem
          rw [queueFor_top hpop hmem, hfail] at hprobe
          cases hprobe
      | notFound =>
          obtain ⟨e, he, -⟩ := hinv.queued_le hgraded htouches (Or.inr hp) hnot
          rw [show st.queue = [] from hend] at he
          cases he
      | failed => exact hgood.elim
      | outOfFuel => exact hgood.elim
    · obtain ⟨popped, st, outcome, hinv, hend, hgood⟩ := hends S.start
      cases outcome with
      | found q =>
          obtain ⟨top, rest, hpop, rfl, hprobe'⟩ := hend
          have hvisited := (hinv.queued top ((queueFor S.start).mem_of_pop hpop)).1
          have htop := (hinv.visited_cases _ hvisited).resolve_right fun h => hapart h.2
          exact hpass (htop ▸ hprobe')
      | notFound => exact hgood p hp hprobe
      | failed => exact hgood.elim
      | outOfFuel => exact hgood.elim

/-- The search is complete in whatever order equally near points are popped, exactly if the start
passes the probe or the probes are in order. -/
theorem complete_iff_searchable (hgraded : S.Graded dist) {points : List α}
    (hpoints : ∀ v, S.inside v = true → v ∈ points) :
    (∀ (Q : TopQueue (@farther α)) (fuel : Nat), points.length + 2 ≤ fuel →
      S.Complete (S.search Q fuel)) ↔ S.Searchable := by
  constructor
  · exact fun h => searchable_of_complete hgraded hpoints fun p =>
      ⟨points.length + 2, le_rfl, h (queueFor p) _ le_rfl⟩
  · intro hsearchable Q fuel hfuel
    obtain ⟨popped, st, hinv, hends⟩ := run_ends hgraded.weigh hpoints Q fuel [] _
      (Inv.init hgraded.start) hfuel
    exact hinv.complete_of_ends hgraded hsearchable hends

end

end Search

end OpenRoad.BestFirst
