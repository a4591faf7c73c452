import OpenRoad.TopQueue
import Mathlib.Logic.Function.Basic
import Mathlib.Logic.Relation
import Mathlib.Tactic.Common

/-!
Repeated searches that grow a tree. Each search starts from the paths found so far, or from the root,
and ends at a target that was not visited; a trace back along the predecessors puts the new path into
the tree. The predecessor array is overwritten throughout, and only the traced paths are kept.
-/

namespace OpenRoad

open Relation

/-- An element of the queue: a node, where it was reached from and at which cost. -/
structure Wavefront where
  nodeIdx : Nat
  prevIdx : Option Nat
  cost : Int
  deriving DecidableEq

/-- The order of the queue; the element with the least cost is on top, then the least node. -/
def Wavefront.less (a b : Wavefront) : Bool :=
  if a.cost = b.cost then b.nodeIdx < a.nodeIdx else b.cost < a.cost

namespace Wavefront

theorem less_irrefl (a : Wavefront) : a.less a = false := by
  unfold less
  rw [if_pos rfl]
  exact decide_eq_false (Nat.lt_irrefl _)

theorem less_trans (a b c : Wavefront) (hab : a.less b = true) (hbc : b.less c = true) :
    a.less c = true := by
  unfold less at *
  split_ifs at * <;> simp only [decide_eq_true_eq] at * <;> omega

/-- The queue that pops the first of the best elements. -/
def firstBest : TopQueue less := TopQueue.firstBest less less_irrefl less_trans

end Wavefront

/-- A graph to search: its edges, the root, the nodes that end a search and the costs of steps. -/
structure TreeSearch where
  adj : Nat → List Nat
  root : Nat
  isTarget : Nat → Bool
  stepCost : Nat → Int

namespace TreeSearch

/-- The arrays that stay from one search to the next. -/
structure Paths where
  visited : Nat → Bool
  isOnPath : Nat → Bool
  prevIdx : Nat → Option Nat

/-- What a search changes. -/
structure Search where
  visited : Nat → Bool
  prevIdx : Nat → Option Nat
  queue : List Wavefront

/-- A node is visited from its predecessor. -/
def Search.visit (s : Search) (w : Wavefront) (rest : List Wavefront) : Search where
  visited := Function.update s.visited w.nodeIdx true
  prevIdx := Function.update s.prevIdx w.nodeIdx w.prevIdx
  queue := rest

variable (G : TreeSearch)

/-- The neighbours of a node that are not visited enter the queue. -/
def pushNeighbors (s : Search) (w : Wavefront) : Search :=
  { s with queue := (((G.adj w.nodeIdx).filter fun n => !s.visited n).map fun n =>
      ⟨n, some w.nodeIdx, w.cost + G.stepCost n⟩) ++ s.queue }

/-- The loop over the queue, for at most `fuel` elements: the arrays and the target it reached. -/
def visitNodes (Q : TopQueue Wavefront.less) (isOnPath : Nat → Bool) :
    Nat → Search → Option (Search × Option Nat)
  | 0, _ => none
  | fuel + 1, s =>
      match Q.pop s.queue with
      | none => some (s, none)
      | some (w, rest) =>
          if !isOnPath w.nodeIdx && s.visited w.nodeIdx then
            visitNodes Q isOnPath fuel { s with queue := rest }
          else if G.isTarget w.nodeIdx && !s.visited w.nodeIdx then
            some (s.visit w rest, some w.nodeIdx)
          else visitNodes Q isOnPath fuel (G.pushNeighbors (s.visit w rest) w)

/-- The trace back puts nodes on the path until it meets the path. -/
def traceBack (prevIdx : Nat → Option Nat) :
    Nat → Option Nat → (Nat → Bool) → Option (Nat → Bool)
  | _, none, isOnPath => some isOnPath
  | 0, some _, _ => none
  | fuel + 1, some idx, isOnPath =>
      if isOnPath idx then some isOnPath
      else traceBack prevIdx fuel (prevIdx idx) (Function.update isOnPath idx true)

/-- One search and its trace back; afterwards only the nodes on paths count as visited. -/
def searchOnce (Q : TopQueue Wavefront.less) (fuel : Nat) (p : Paths) (queue : List Wavefront) :
    Option Paths :=
  match G.visitNodes Q p.isOnPath fuel ⟨p.visited, p.prevIdx, queue⟩ with
  | none => none
  | some (s, target) =>
      match traceBack s.prevIdx fuel target p.isOnPath with
      | none => none
      | some isOnPath => some ⟨isOnPath, isOnPath, s.prevIdx⟩

/-- A node on a path and its predecessor on a path. -/
def Step (p : Paths) (a b : Nat) : Prop :=
  p.isOnPath a = true ∧ p.isOnPath b = true ∧ p.prevIdx b = some a ∧ b ∈ G.adj a

/-- The nodes on paths form a tree. -/
structure Tree (p : Paths) : Prop where
  visited : p.visited = p.isOnPath
  root : p.isOnPath G.root = true → p.prevIdx G.root = none
  chain : ∀ i, p.isOnPath i = true → ReflTransGen (G.Step p) G.root i

/-- The visited nodes of a search come from the path or from other visited nodes. -/
inductive Reached (p : Paths) (s : Search) : Nat → Prop
  | onPath {i : Nat} (h : p.isOnPath i = true) : Reached p s i
  | root (hoff : p.isOnPath G.root = false) (hvisited : s.visited G.root = true)
      (hprev : s.prevIdx G.root = none) : Reached p s G.root
  | step {a i : Nat} (ha : Reached p s a) (hoff : p.isOnPath i = false) (hne : i ≠ G.root)
      (hvisited : s.visited i = true) (hprev : s.prevIdx i = some a) (hadj : i ∈ G.adj a) :
      Reached p s i

/-- An element of the queue is on the path, or the root, or it comes from a visited node. -/
inductive Comes (p : Paths) (s : Search) (w : Wavefront) : Prop
  | onPath (h : p.isOnPath w.nodeIdx = true) (hprev : w.prevIdx = p.prevIdx w.nodeIdx)
  | root (hoff : p.isOnPath G.root = false) (hnode : w.nodeIdx = G.root)
      (hprev : w.prevIdx = none)
  | step {a : Nat} (ha : G.Reached p s a) (hoff : p.isOnPath w.nodeIdx = false)
      (hne : w.nodeIdx ≠ G.root) (hprev : w.prevIdx = some a) (hadj : w.nodeIdx ∈ G.adj a)

/-- What holds throughout a search. -/
structure Searching (p : Paths) (s : Search) : Prop where
  kept : ∀ i, p.isOnPath i = true → s.visited i = true ∧ s.prevIdx i = p.prevIdx i
  reached : ∀ i, s.visited i = true → G.Reached p s i
  queue : ∀ w ∈ s.queue, G.Comes p s w
  first : s.visited G.root = true ∨ ∀ w ∈ s.queue, w.nodeIdx = G.root

/-- A queue to start with has the nodes on paths, or nothing but the root. -/
structure Starts (p : Paths) (queue : List Wavefront) : Prop where
  comes : ∀ w ∈ queue, (p.isOnPath w.nodeIdx = true ∧ w.prevIdx = p.prevIdx w.nodeIdx) ∨
    (p.isOnPath G.root = false ∧ w.nodeIdx = G.root ∧ w.prevIdx = none)
  first : p.isOnPath G.root = true ∨ ∀ w ∈ queue, w.nodeIdx = G.root

variable {G} {p : Paths}

/-- Visiting a node that was not visited keeps what was reached. -/
theorem Reached.visit {s : Search} {i : Nat} (h : G.Reached p s i) {w : Wavefront}
    {rest : List Wavefront} (hfresh : s.visited w.nodeIdx = false) :
    G.Reached p (s.visit w rest) i := by
  have hne : ∀ {j}, s.visited j = true → j ≠ w.nodeIdx := by
    intro j hj heq
    rw [heq, hfresh] at hj
    cases hj
  have hvisited : ∀ {j}, s.visited j = true → (s.visit w rest).visited j = true := by
    intro j hj
    show Function.update s.visited w.nodeIdx true j = true
    rw [Function.update_of_ne (hne hj), hj]
  have hprevs : ∀ {j}, s.visited j = true → (s.visit w rest).prevIdx j = s.prevIdx j :=
    fun hj => Function.update_of_ne (hne hj) _ _
  induction h with
  | onPath h => exact .onPath h
  | root hoff hvis hprev => exact .root hoff (hvisited hvis) ((hprevs hvis).trans hprev)
  | step _ hoff hroot hvis hprev hadj ih =>
      exact .step ih hoff hroot (hvisited hvis) ((hprevs hvis).trans hprev) hadj

theorem Reached.congr {s s' : Search} {i : Nat} (h : G.Reached p s i)
    (hvisited : s'.visited = s.visited) (hprev : s'.prevIdx = s.prevIdx) : G.Reached p s' i := by
  induction h with
  | onPath h => exact .onPath h
  | root hoff hvis hnone => exact .root hoff (hvisited ▸ hvis) (hprev ▸ hnone)
  | step _ hoff hne hvis hsome hadj ih =>
      exact .step ih hoff hne (hvisited ▸ hvis) (hprev ▸ hsome) hadj

theorem Comes.mono {s s' : Search} {w : Wavefront} (h : G.Comes p s w)
    (hreached : ∀ i, G.Reached p s i → G.Reached p s' i) : G.Comes p s' w := by
  cases h with
  | onPath h hprev => exact .onPath h hprev
  | root hoff hnode hprev => exact .root hoff hnode hprev
  | step hp hoff hne hprev hadj => exact .step (hreached _ hp) hoff hne hprev hadj

/-- An element leaves the queue. -/
theorem Searching.pop {s : Search} (h : G.Searching p s) {rest : List Wavefront}
    (hrest : ∀ other ∈ rest, G.Comes p s other) (hroot : s.visited G.root = true) :
    G.Searching p { s with queue := rest } where
  kept := h.kept
  reached := fun i hi => (h.reached i hi).congr rfl rfl
  queue := fun other hother => (hrest other hother).mono fun _ hi => hi.congr rfl rfl
  first := Or.inl hroot

/-- The popped element's node is reached once it is visited. -/
theorem Searching.visit {s : Search} (h : G.Searching p s) {w : Wavefront} {rest : List Wavefront}
    (hcomes : G.Comes p s w) (hrest : ∀ other ∈ rest, G.Comes p s other)
    (hpush : p.isOnPath w.nodeIdx = true ∨ s.visited w.nodeIdx = false)
    (hfirst : s.visited G.root = true ∨ w.nodeIdx = G.root) :
    G.Searching p (s.visit w rest) := by
  by_cases honPath : p.isOnPath w.nodeIdx = true
  · -- the node is on the path: visiting it again changes nothing
    obtain ⟨hvisited, hprev⟩ := h.kept w.nodeIdx honPath
    have hwprev : w.prevIdx = p.prevIdx w.nodeIdx := by
      cases hcomes with
      | onPath _ hprev => exact hprev
      | root hoff hnode _ =>
          rw [hnode, hoff] at honPath
          cases honPath
      | step _ hoff _ _ _ =>
          rw [hoff] at honPath
          cases honPath
    have hsame : s.visit w rest = { s with queue := rest } := by
      unfold Search.visit
      rw [hwprev, ← hprev, ← hvisited, Function.update_eq_self, Function.update_eq_self]
    rw [hsame]
    apply h.pop hrest
    rcases hfirst with hvis | hnode
    · exact hvis
    · rw [← hnode]
      exact hvisited
  · rw [Bool.not_eq_true] at honPath
    have hfresh : s.visited w.nodeIdx = false := by
      refine hpush.resolve_left fun h => ?_
      rw [honPath] at h
      cases h
    have hreached : ∀ i, G.Reached p s i → G.Reached p (s.visit w rest) i :=
      fun _ hi => hi.visit hfresh
    have hself : (s.visit w rest).visited w.nodeIdx = true := Function.update_self _ _ _
    have hprevself : (s.visit w rest).prevIdx w.nodeIdx = w.prevIdx := Function.update_self _ _ _
    have hother : ∀ i, i ≠ w.nodeIdx → (s.visit w rest).visited i = s.visited i :=
      fun i hi => Function.update_of_ne hi _ _
    refine ⟨fun i hi => ?_, fun i hi => ?_, fun other ho => (hrest other ho).mono hreached,
      Or.inl ?_⟩
    · have hne : i ≠ w.nodeIdx := by
        intro heq
        rw [heq, honPath] at hi
        cases hi
      rw [hother i hne]
      exact ⟨(h.kept i hi).1, (Function.update_of_ne hne _ _).trans (h.kept i hi).2⟩
    · by_cases heq : i = w.nodeIdx
      · subst heq
        cases hcomes with
        | onPath hon _ =>
            rw [hon] at honPath
            cases honPath
        | root hoff hnode hprev =>
            rw [hnode] at hself hprevself ⊢
            exact .root hoff hself (hprevself.trans hprev)
        | step hp hoff hne hprev hadj =>
            exact .step (hreached _ hp) hoff hne hself (hprevself.trans hprev) hadj
      · rw [hother i heq] at hi
        exact hreached i (h.reached i hi)
    · rcases hfirst with hvis | hnode
      · by_cases heq : G.root = w.nodeIdx
        · rw [heq]
          exact hself
        · rw [hother _ heq]
          exact hvis
      · rw [← hnode]
        exact hself

/-- The neighbours that enter the queue come from the visited node. -/
theorem Searching.pushNeighbors {s : Search} (h : G.Searching p s) {w : Wavefront}
    (hvisited : s.visited w.nodeIdx = true) (hroot : s.visited G.root = true) :
    G.Searching p (G.pushNeighbors s w) := by
  have hreached : ∀ i, G.Reached p s i → G.Reached p (G.pushNeighbors s w) i :=
    fun _ hi => hi.congr rfl rfl
  refine ⟨h.kept, fun i hi => hreached i (h.reached i hi), fun other hother => ?_, Or.inl hroot⟩
  rcases List.mem_append.mp hother with hother | hother
  · obtain ⟨n, hn, rfl⟩ := List.mem_map.mp hother
    obtain ⟨hadj, hfresh⟩ := List.mem_filter.mp hn
    rw [Bool.not_eq_true'] at hfresh
    refine .step (hreached _ (h.reached _ hvisited)) ?_ ?_ rfl hadj
    · rw [← Bool.not_eq_true]
      intro honPath
      rw [(h.kept n honPath).1] at hfresh
      cases hfresh
    · rintro rfl
      rw [hroot] at hfresh
      cases hfresh
  · exact (h.queue other hother).mono hreached

theorem Tree.searching (h : G.Tree p) {queue : List Wavefront} (hstarts : G.Starts p queue) :
    G.Searching p ⟨p.visited, p.prevIdx, queue⟩ := by
  refine ⟨fun i hi => ⟨?_, rfl⟩, fun i hi => .onPath ?_, fun w hw => ?_, ?_⟩
  · show p.visited i = true
    rw [h.visited, hi]
  · have hi : p.visited i = true := hi
    rwa [h.visited] at hi
  · rcases hstarts.comes w hw with ⟨honPath, hprev⟩ | ⟨hoff, hnode, hprev⟩
    · exact .onPath honPath hprev
    · exact .root hoff hnode hprev
  · refine hstarts.first.imp (fun hroot => ?_) id
    show p.visited G.root = true
    rw [h.visited, hroot]

variable {Q : TopQueue Wavefront.less}

/-- What a search leaves, and the target that it reached. -/
theorem visitNodes_searching {fuel : Nat} {s s' : Search} {target : Option Nat}
    (h : G.Searching p s) (hrun : G.visitNodes Q p.isOnPath fuel s = some (s', target)) :
    G.Searching p s' ∧ ∀ v, target = some v → s'.visited v = true := by
  induction fuel generalizing s with
  | zero => cases hrun
  | succ fuel ih =>
      unfold visitNodes at hrun
      cases hpop : Q.pop s.queue with
      | none =>
          rw [hpop] at hrun
          cases hrun
          exact ⟨h, fun v hv => by cases hv⟩
      | some popped =>
          obtain ⟨w, rest⟩ := popped
          rw [hpop] at hrun
          dsimp only at hrun
          have hmem := Q.mem_of_pop hpop
          have hcomes := h.queue w hmem
          have hrest : ∀ other ∈ rest, G.Comes p s other := fun other hother =>
            h.queue other ((Q.mem_pop_iff hpop).mpr (Or.inr hother))
          have hfirst : s.visited G.root = true ∨ w.nodeIdx = G.root :=
            h.first.imp id fun hall => hall w hmem
          have hself : (s.visit w rest).visited w.nodeIdx = true := Function.update_self _ _ _
          split at hrun
          · rename_i hskip
            rw [Bool.and_eq_true] at hskip
            refine ih (h.pop hrest ?_) hrun
            rcases hfirst with hvis | hnode
            · exact hvis
            · rw [← hnode]
              exact hskip.2
          · rename_i hskip
            have hpush : p.isOnPath w.nodeIdx = true ∨ s.visited w.nodeIdx = false := by
              cases honPath : p.isOnPath w.nodeIdx with
              | true => exact Or.inl rfl
              | false =>
                  rw [honPath] at hskip
                  exact Or.inr (by simpa using hskip)
            have hvisit := h.visit hcomes hrest hpush hfirst
            split at hrun
            · cases hrun
              refine ⟨hvisit, fun v hv => ?_⟩
              rw [← Option.some.inj hv]
              exact hself
            · refine ih (hvisit.pushNeighbors hself ?_) hrun
              rcases hfirst with hvis | heq
              · show Function.update s.visited w.nodeIdx true G.root = true
                by_cases heq : G.root = w.nodeIdx
                · rw [heq]
                  exact Function.update_self _ _ _
                · rw [Function.update_of_ne heq, hvis]
              · rw [← heq]
                exact hself

variable (G p) in
/-- A node that the trace back put on a path, with its predecessor. -/
def Traced (s : Search) (isOnPath : Nat → Bool) (i : Nat) : Prop :=
  G.Reached p s i ∧ p.isOnPath i = false ∧
    (s.prevIdx i = none ∨ ∃ a, s.prevIdx i = some a ∧ isOnPath a = true)

theorem Reached.prev {s : Search} {i a : Nat} (h : G.Reached p s i) (hoff : p.isOnPath i = false)
    (hprev : s.prevIdx i = some a) : G.Reached p s a ∧ i ∈ G.adj a ∧ i ≠ G.root := by
  cases h with
  | onPath h =>
      rw [h] at hoff
      cases hoff
  | root _ _ hnone =>
      rw [hnone] at hprev
      cases hprev
  | step hp _ hne _ hsome hadj =>
      rw [hsome] at hprev
      cases hprev
      exact ⟨hp, hadj, hne⟩

/-- The trace back adds the chain of predecessors of its start to the paths. -/
theorem traceBack_spec {s : Search} {fuel : Nat} {last : Option Nat} {before after : Nat → Bool}
    (hlast : ∀ i, last = some i → G.Reached p s i)
    (hbefore : ∀ i, p.isOnPath i = true → before i = true)
    (hrun : traceBack s.prevIdx fuel last before = some after) :
    (∀ i, before i = true → after i = true) ∧ (∀ i, last = some i → after i = true) ∧
      ∀ i, after i = true → before i = true ∨ Traced G p s after i := by
  induction fuel generalizing last before with
  | zero =>
      cases last with
      | none =>
          cases hrun
          exact ⟨fun _ h => h, fun _ h => (by cases h), fun _ h => Or.inl h⟩
      | some i => cases hrun
  | succ fuel ih =>
      cases last with
      | none =>
          cases hrun
          exact ⟨fun _ h => h, fun _ h => (by cases h), fun _ h => Or.inl h⟩
      | some idx =>
          unfold traceBack at hrun
          split at hrun
          · rename_i hon
            cases hrun
            refine ⟨fun _ h => h, fun i hi => ?_, fun _ h => Or.inl h⟩
            rw [← Option.some.inj hi]
            exact hon
          · rename_i hoff
            have hreached := hlast idx rfl
            have hoffPath : p.isOnPath idx = false := by
              rw [← Bool.not_eq_true]
              exact fun h => hoff (hbefore idx h)
            have hup : ∀ i, before i = true → Function.update before idx true i = true := by
              intro i hi
              by_cases heq : i = idx
              · rw [heq]
                exact Function.update_self _ _ _
              · rw [Function.update_of_ne heq, hi]
            have hnext : ∀ i, s.prevIdx idx = some i → G.Reached p s i := fun i hi =>
              (hreached.prev hoffPath hi).1
            obtain ⟨hkeep, hstart, hnew⟩ := ih hnext (fun i hi => hup i (hbefore i hi)) hrun
            refine ⟨fun i hi => hkeep i (hup i hi), fun i hi => ?_, fun i hi => ?_⟩
            · rw [← Option.some.inj hi]
              exact hkeep idx (Function.update_self _ _ _)
            · rcases hnew i hi with hmark | htraced
              · by_cases heq : i = idx
                · subst heq
                  refine Or.inr ⟨hreached, hoffPath, ?_⟩
                  cases hprev : s.prevIdx i with
                  | none => exact Or.inl rfl
                  | some a => exact Or.inr ⟨a, rfl, hstart a hprev⟩
                · rw [Function.update_of_ne heq] at hmark
                  exact Or.inl hmark
              · exact Or.inr htraced

/-- The tree after one more search. -/
theorem Tree.searchOnce (h : G.Tree p) {fuel : Nat} {queue : List Wavefront}
    (hstarts : G.Starts p queue) {p' : Paths} (hrun : G.searchOnce Q fuel p queue = some p') :
    G.Tree p' := by
  unfold TreeSearch.searchOnce at hrun
  cases hsearch : G.visitNodes Q p.isOnPath fuel ⟨p.visited, p.prevIdx, queue⟩ with
  | none =>
      rw [hsearch] at hrun
      cases hrun
  | some found =>
      obtain ⟨s, target⟩ := found
      rw [hsearch] at hrun
      dsimp only at hrun
      cases htrace : traceBack s.prevIdx fuel target p.isOnPath with
      | none =>
          rw [htrace] at hrun
          cases hrun
      | some isOnPath =>
          rw [htrace] at hrun
          cases hrun
          obtain ⟨hsearching, htarget⟩ := visitNodes_searching (h.searching hstarts) hsearch
          obtain ⟨hkeep, -, hnew⟩ := traceBack_spec
            (fun i hi => hsearching.reached i (htarget i hi)) (fun _ hi => hi) htrace
          have hreached : ∀ i, isOnPath i = true → G.Reached p s i := fun i hi =>
            (hnew i hi).elim (fun hon => .onPath hon) fun htraced => htraced.1
          refine ⟨rfl, fun hroot => ?_, fun i hi => ?_⟩
          · show s.prevIdx G.root = none
            rcases hnew G.root hroot with hon | ⟨hreach, hoff, -⟩
            · rw [(hsearching.kept _ hon).2]
              exact h.root hon
            · cases hprev : s.prevIdx G.root with
              | none => rfl
              | some a => exact absurd rfl (hreach.prev hoff hprev).2.2
          · -- the chain follows the way in which the node was reached
            have hi : isOnPath i = true := hi
            have hway := hreached i hi
            induction hway with
            | onPath hon =>
                refine ReflTransGen.mono (fun a b hstep => ?_) _ _ (h.chain _ hon)
                exact ⟨hkeep a hstep.1, hkeep b hstep.2.1,
                  (hsearching.kept b hstep.2.1).2.trans hstep.2.2.1, hstep.2.2.2⟩
            | root _ _ _ => exact ReflTransGen.refl
            | @step a i hp hoff _ _ hprev hadj ih =>
                have honPrev : isOnPath a = true := by
                  rcases hnew i hi with hon | ⟨-, -, hnone | ⟨q, hq, honq⟩⟩
                  · rw [hon] at hoff
                    cases hoff
                  · rw [hnone] at hprev
                    cases hprev
                  · rw [hprev] at hq
                    cases hq
                    exact honq
                exact ReflTransGen.tail (ih honPrev honPrev) ⟨honPrev, hi, hprev, hadj⟩

/-- Nothing is on a path at first. -/
theorem tree_empty : G.Tree ⟨fun _ => false, fun _ => false, fun _ => none⟩ := by
  refine ⟨rfl, fun _ => rfl, fun i hi => ?_⟩
  have hi : false = true := hi
  cases hi

end TreeSearch

end OpenRoad
