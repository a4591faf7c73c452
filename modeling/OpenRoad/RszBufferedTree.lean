import OpenRoad.RszBufferedNet
import OpenRoad.RszSteinerDistance

/-!
Buffered nets from Steiner trees. The tree is searched from the driver on, never back to the node the
search comes from; of the nodes at one location, the first one takes the pins.
-/

namespace OpenRoad.Rsz

open Run ParentTree Relation

attribute [local instance] Point.lawfulBEq

namespace SteinerTree

variable (tree : SteinerTree) (net : NetPins)

/-- `adjacents`, filled in with both directions of every branch. -/
def adjacents : Nat → List Nat :=
  (List.range tree.branchCount).foldl (fun adjacents i =>
    if tree.n i = i then adjacents
    else
      let adjacents := Function.update adjacents i (adjacents i ++ [tree.n i])
      Function.update adjacents (tree.n i) (adjacents (tree.n i) ++ [i])) fun _ => []

/-- The net behind `dest`, coming from `prev`; `none` means that there is no fuel. -/
def makeBufferedNetFromTree : Nat → List Point → Option Nat → Nat →
    Option (Option BufferedNet × List Point)
  | 0, _, _, _ => none
  | fuel + 1, visited, prev, dest =>
      let loc := tree.location dest
      let pins := net.locPins loc
      let st := if dest < tree.pinCount ∧ pins ≠ [] ∧ loc ∉ visited then
          (net.loadNet loc pins, visited ++ [loc])
        else (none, visited)
      (run (fun st adj =>
          if some adj = prev then some st
          else (makeBufferedNetFromTree fuel st.2 (some dest) adj).map fun r =>
            (joinNet loc st.1 r.1, r.2)) st (tree.adjacents dest)).map fun st =>
        match prev with
        | none => st
        | some p =>
            if loc = tree.location p then st else (st.1.map (.wire (tree.location p) (-1)), st.2)

/-- `makeBufferedNetSteiner`; the outer `none` means that there is no fuel. -/
def makeBufferedNetSteiner : Option (Option BufferedNet) :=
  match tree.drvrPt with
  | none => some none
  | some drvrPt =>
      (tree.makeBufferedNetFromTree net tree.branchCount [] none drvrPt).map Prod.fst

section

variable {tree : SteinerTree} {net : NetPins} {up : Nat → Nat} {driver v w : Nat}

theorem adjacents_eq (tree : SteinerTree) (v : Nat) :
    tree.adjacents v = (List.range tree.branchCount).flatMap (tree.entry v) := by
  unfold adjacents
  generalize tree.branchCount = count
  induction count generalizing v with
  | zero => rfl
  | succ count ih =>
      rw [List.range_succ, List.foldl_append, List.flatMap_append, List.flatMap_singleton, ← ih]
      simp only [List.foldl_cons, List.foldl_nil]
      unfold entry
      split
      · exact (List.append_nil _).symm
      · rename_i hself
        by_cases hn : v = tree.n count
        · subst hn
          rw [Function.update_self, Function.update_of_ne hself, if_neg hself, if_pos rfl]
          rfl
        · rw [Function.update_of_ne hn, if_neg hn, List.append_nil]
          by_cases hv : v = count
          · rw [hv, Function.update_self, if_pos rfl]
          · rw [Function.update_of_ne hv, if_neg hv, List.append_nil]

namespace Turned

variable (h : tree.Turned up driver)

include h

theorem mem_adjacents (hv : v < tree.branchCount) :
    w ∈ tree.adjacents v ↔ w < tree.branchCount ∧ (Child up v w ∨ Child up w v) := by
  obtain ⟨root, hrooted⟩ := h.built.rooted
  rw [adjacents_eq, (entries_perm hrooted hv).mem_iff]
  exact h.mem_neighbours_iff hv

end Turned

/-- The pins at the nodes from `v` down have been visited. -/
def PinsVisited (tree : SteinerTree) (net : NetPins) (up : Nat → Nat) (v : Nat) (visited : List Point) :
    Prop :=
  ∀ u < tree.pinCount, Under up v u → net.locPins (tree.location u) ≠ [] → tree.location u ∈ visited

/-- Each load is at a node below `v`, behind wires of the length of the way down to it, and `offset`
more. -/
def ReachedBelow (tree : SteinerTree) (net : NetPins) (up : Nat → Nat) (v : Nat) (offset : Int)
    (bnet : Option BufferedNet) : Prop :=
  ∀ l ∈ netLoads bnet, ∃ u < tree.pinCount, l.1 ∈ net.loadsAt (tree.location u) ∧ Under up v u ∧
    ∀ path, (v :: path).IsChain (Child up) → (v :: path).getLast? = some u →
      l.2 = tree.wireLength (v :: path) + offset

/-- The loop over the neighbours of `v`: the subtrees of those that are no longer in `adjs` have been
visited. -/
structure SearchedBelow (tree : SteinerTree) (net : NetPins) (up : Nat → Nat) (visited : List Point)
    (v : Nat) (adjs : List Nat) (st : Option BufferedNet × List Point) : Prop where
  mem : ∀ adj ∈ adjs, adj ∈ tree.adjacents v
  done : ∀ c < tree.branchCount, Child up v c → c ∈ adjs ∨ PinsVisited tree net up c st.2
  own : v < tree.pinCount → net.locPins (tree.location v) ≠ [] → tree.location v ∈ st.2
  atLoc : AtLoc (tree.location v) st.1
  grown : ∃ more, Grown net visited more st ∧ ReachedBelow tree net up v 0 st.1

namespace Turned

variable (h : tree.Turned up driver)

include h

/-- What is found below a child is joined at the node. -/
theorem reachedBelow_join {bnet bnet' : Option BufferedNet} {loc : Point} {c : Nat}
    (hv : v < tree.branchCount) (hc : c < tree.branchCount) (hchild : Child up v c)
    (hv' : ReachedBelow tree net up v 0 bnet)
    (hc' : ReachedBelow tree net up c (tree.manhattan v c) bnet') :
    ReachedBelow tree net up v 0 (joinNet loc bnet bnet') := by
  intro l hl
  rw [netLoads_joinNet] at hl
  rcases List.mem_append.mp hl with hl | hl
  · exact hv' l hl
  · obtain ⟨u, hu, hload, hunder, hlen⟩ := hc' l hl
    refine ⟨u, hu, hload, ReflTransGen.head hchild hunder, fun path hchain hlast => ?_⟩
    cases path with
    | nil =>
        obtain rfl : v = u := by simpa using hlast
        exact absurd hunder (h.rooted.not_under_of_child hv hchild)
    | cons d path =>
        -- the way down leads through the same child
        obtain ⟨hd, hrest⟩ := List.isChain_cons_cons.mp hchain
        rw [List.getLast?_cons_cons] at hlast
        obtain rfl := h.rooted.child_unique hv hd hchild (Rooted.under_of_chain hrest hlast) hunder
        rw [hlen path hrest hlast, wireLength, Int.add_zero, Int.add_comm]

/-- The first node of a location takes its pins. -/
theorem searchedBelow_start (hv : v < tree.branchCount) {visited : List Point} (hnodup : visited.Nodup) :
    SearchedBelow tree net up visited v (tree.adjacents v)
      (if v < tree.pinCount ∧ net.locPins (tree.location v) ≠ [] ∧ tree.location v ∉ visited then
        (net.loadNet (tree.location v) (net.locPins (tree.location v)), visited ++ [tree.location v])
      else (none, visited)) := by
  obtain ⟨hload, hat⟩ := loadNet_spec net (tree.location v) (net.locPins (tree.location v))
  refine ⟨fun _ hadj => hadj, fun c hc hchild => Or.inl ((h.mem_adjacents hv).mpr ⟨hc, Or.inl hchild⟩),
    fun hpin hne => ?_, ?_, ?_⟩ <;> split
  · exact List.mem_append_right _ (List.mem_singleton.mpr rfl)
  · rename_i hcond
    by_contra hnew
    exact hcond ⟨hpin, hne, hnew⟩
  · exact hat
  · exact fun b hb => absurd hb (Option.not_mem_none b)
  · rename_i hcond
    obtain ⟨hpin, -, hnew⟩ := hcond
    refine ⟨[tree.location v], ⟨rfl, ?_, ?_⟩, fun l hl => ?_⟩
    · exact List.nodup_append.mpr ⟨hnodup, List.nodup_singleton _, fun a ha b hb heq =>
        hnew (List.mem_singleton.mp hb ▸ heq ▸ ha)⟩
    · rw [hload, List.map_map, List.flatMap_singleton]
      exact List.Perm.of_eq (List.map_id _)
    · rw [hload] at hl
      obtain ⟨pin, hmem, rfl⟩ := List.mem_map.mp hl
      refine ⟨v, hpin, hmem, ReflTransGen.refl, fun path hchain hlast => ?_⟩
      cases path with
      | nil => rfl
      | cons c path =>
          obtain ⟨hchild, hrest⟩ := List.isChain_cons_cons.mp hchain
          rw [List.getLast?_cons_cons] at hlast
          exact absurd (Rooted.under_of_chain hrest hlast) (h.rooted.not_under_of_child hv hchild)
  · exact ⟨[], ⟨(List.append_nil _).symm, hnodup, List.Perm.refl _⟩,
      fun l hl => absurd hl List.not_mem_nil⟩

theorem makeBufferedNetFromTree_spec (fuel : Nat) (visited : List Point) (prev : Option Nat)
    (v : Nat) (hv : v < tree.branchCount) (hnodup : visited.Nodup)
    (hprev : prev = none ∧ v = driver ∨ prev = some (up v) ∧ v ≠ driver)
    (hfuel : size tree.branchCount up v ≤ fuel) :
    ∃ r new, tree.makeBufferedNetFromTree net fuel visited prev v = some r ∧ Grown net visited new r ∧
      PinsVisited tree net up v r.2 ∧
      ReachedBelow tree net up v (prev.elim 0 fun p => tree.manhattan p v) r.1 ∧
      AtLoc (tree.location (prev.getD v)) r.1 := by
  induction fuel generalizing visited prev v with
  | zero => exact absurd (@Rooted.size_pos _ up _ hv) (by omega)
  | succ fuel ih =>
      unfold makeBufferedNetFromTree
      dsimp only
      have hstep : ∀ adj adjs st, SearchedBelow tree net up visited v (adj :: adjs) st →
          ∃ st', (if some adj = prev then some st
            else (tree.makeBufferedNetFromTree net fuel st.2 (some v) adj).map
              fun r => (joinNet (tree.location v) st.1 r.1, r.2)) = some st' ∧
            SearchedBelow tree net up visited v adjs st' := by
        rintro adj adjs st ⟨hmem, hdone, hown, hat, more, hgrown, hreached⟩
        obtain ⟨hadj, hway⟩ := (h.mem_adjacents hv).mp (hmem adj List.mem_cons_self)
        split
        · -- the way back is not to a child
          rename_i hback
          refine ⟨st, rfl, fun a ha => hmem a (List.mem_cons_of_mem _ ha), fun c hc hchild => ?_, hown, hat,
            more, hgrown, hreached⟩
          refine (hdone c hc hchild).imp_left fun hin => ?_
          rcases List.mem_cons.mp hin with rfl | hin
          · rcases hprev with ⟨rfl, -⟩ | ⟨rfl, hne⟩
            · exact absurd hback (by simp)
            · have hself := h.rooted.child_up hv hne
              rw [← Option.some.inj hback] at hself
              exact absurd (ReflTransGen.single hself) (h.rooted.not_under_of_child hv hchild)
          · exact hin
        · rename_i hforth
          have hchild : Child up v adj := by
            refine hway.resolve_right fun hparent => ?_
            rcases hprev with ⟨-, rfl⟩ | ⟨rfl, -⟩
            · exact h.rooted.not_child_root adj hparent
            · exact hforth (congrArg some hparent.2.symm)
          have hsize := h.rooted.size_child_lt hchild hadj
          obtain ⟨r, new, hr, hgrown', hpins, hreached', hat'⟩ := ih st.2 (some v) adj hadj hgrown.nodup
            (Or.inr ⟨congrArg some hchild.2.symm, fun heq => h.rooted.not_child_root v (heq ▸ hchild)⟩)
            (by omega)
          rw [hr]
          refine ⟨_, rfl, fun a ha => hmem a (List.mem_cons_of_mem _ ha), fun c hc hc' => ?_,
            fun hpin hne => (hgrown'.kept (hown hpin hne)).1, hat.joinNet hat', more ++ new,
            hgrown.join hgrown', h.reachedBelow_join hv hadj hchild hreached hreached'⟩
          rcases hdone c hc hc' with hin | hvisited
          · rcases List.mem_cons.mp hin with rfl | hin
            · exact Or.inr hpins
            · exact Or.inl hin
          · exact Or.inr fun u hu hunder hne => (hgrown'.kept (hvisited u hu hunder hne)).1
      obtain ⟨⟨bnet, visited'⟩, hrun, -, hdone, hown, hat, more, hgrown, hreached⟩ :=
        run_total hstep _ _ (h.searchedBelow_start hv hnodup)
      have hpins : PinsVisited tree net up v visited' := by
        intro u hu hunder hne
        rcases ReflTransGen.cases_head hunder with rfl | ⟨c, hchild, hrest⟩
        · exact hown hu hne
        · have hc := h.rooted.under_lt hrest (hu.trans_le h.built.pinCount_le)
          exact (hdone c hc hchild).resolve_left List.not_mem_nil u hu hrest hne
      rw [hrun, Option.map_some]
      rcases hprev with ⟨rfl, rfl⟩ | ⟨rfl, hne⟩
      · exact ⟨_, more, rfl, hgrown, hpins, hreached, hat⟩
      · dsimp only [Option.elim_some, Option.getD_some]
        by_cases hloc : tree.location v = tree.location (up v)
        · rw [if_pos hloc]
          have hzero : tree.manhattan (up v) v = 0 := by simp [manhattan, hloc]
          rw [hzero, ← hloc]
          exact ⟨_, more, rfl, hgrown, hpins, hreached, hat⟩
        · rw [if_neg hloc]
          refine ⟨_, more, rfl, ⟨hgrown.visited, hgrown.nodup, ?_⟩, hpins, fun l hl => ?_, fun b hb => ?_⟩
          · rw [netLoads_wire hat, List.map_map]
            exact hgrown.loads
          · rw [netLoads_wire hat] at hl
            obtain ⟨l', hl', rfl⟩ := List.mem_map.mp hl
            obtain ⟨u, hu, hload, hunder, hlen⟩ := hreached l' hl'
            refine ⟨u, hu, hload, hunder, fun path hchain hlast => ?_⟩
            show l'.2 + tree.manhattan (up v) v = _
            rw [hlen path hchain hlast, Int.add_zero]
          · obtain ⟨b', -, rfl⟩ := Option.map_eq_some_iff.mp hb
            rfl

end Turned

end

end SteinerTree

/-! ### Both nets -/

/-- The tree of a builder keeps all loads, each behind wires as long as the way to a node of the tree
where it is. -/
theorem makeBufferedNetSteiner_spec {tree : SteinerTree} {net : NetPins} (hbuilt : tree.Built)
    (hpins : ∀ p ∈ net.pins, ∃ v < tree.pinCount, tree.location v = p.2) :
    ∃ bnet, tree.makeBufferedNetSteiner net = some bnet ∧ KeepsLoads net bnet ∧
      ∀ l ∈ netLoads bnet, ∃ v < tree.pinCount, (l.1, tree.location v) ∈ net.pins ∧
        ∀ driver path, tree.drvrPt = some driver → Path tree.Adj driver path v →
          l.2 = tree.wireLength path := by
  obtain ⟨up, driver, h⟩ := hbuilt.turned
  obtain ⟨⟨bnet, visited⟩, new, hrun, hgrown, hvisited, hreached, -⟩ :=
    @SteinerTree.Turned.makeBufferedNetFromTree_spec _ net _ _ h tree.branchCount [] none driver
      (h.driver_lt.trans_le hbuilt.pinCount_le) List.nodup_nil (Or.inl ⟨rfl, rfl⟩)
      (Rooted.size_le up driver)
  obtain rfl : visited = new := hgrown.visited
  refine ⟨bnet, ?_, keepsLoads hgrown.nodup hgrown.loads fun p hp _ => ?_, fun l hl => ?_⟩
  · unfold SteinerTree.makeBufferedNetSteiner
    rw [h.drvrPt]
    dsimp only
    rw [hrun]
    rfl
  · obtain ⟨v, hv, hloc⟩ := hpins p hp
    rw [← hloc]
    refine hvisited v hv (h.rooted.under_root (hv.trans_le hbuilt.pinCount_le)) fun hnil => ?_
    have hmem : p.1 ∈ net.locPins (tree.location v) := by
      simpa [NetPins.locPins, hloc] using hp
    exact List.not_mem_nil (hnil ▸ hmem)
  · obtain ⟨v, hv, hload, -, hlen⟩ := hreached l hl
    refine ⟨v, hv, (mem_loadsAt.mp hload).2, fun driver' path hdriver hpath => ?_⟩
    obtain rfl := Option.some.inj (h.drvrPt.symm.trans hdriver)
    obtain ⟨rest, rfl⟩ : ∃ rest, path = driver :: rest := by
      cases path with
      | nil => exact absurd hpath.head (by simp)
      | cons a rest => exact ⟨rest, by rw [Option.some.inj hpath.head]⟩
    obtain ⟨hchain, hlast, -⟩ := @SteinerTree.Turned.path_below _ _ _ _ _ h [] rest hpath
    rw [hlen rest hchain hlast]
    exact Int.add_zero _

/-- Two segments from the driver over a bend at `(x, x)` to the load. -/
def bentRoute (x : Int) : List GSegment := [⟨x + 10, x, 2, x, x, 2⟩, ⟨x, x, 3, x, x + 10, 3⟩]

def bentPins (x : Int) : NetPins where
  pins := [(0, (x + 10, x)), (1, (x, x + 10))]
  nodup := (by decide : [0, 1].Nodup)
  isLoad := fun pin => pin == 1

theorem routed_bent (x : Int) :
    Routed (bentPins x) 0 (x + 10, x) (routeSegments (bentPins x) (bentRoute x)) := by
  have hsegs : routeSegments (bentPins x) (bentRoute x) = bentRoute x := by
    simp [routeSegments, bentRoute, GSegment.isVia]
  have hpoints : routePoints (bentRoute x) = [(x + 10, x), (x, x), (x, x), (x, x + 10)] := rfl
  rw [hsegs]
  have hbend : ∀ a ∈ routePoints (bentRoute x), (routeGraph (bentRoute x)).Reachable a (x, x) := by
    intro a ha
    by_cases heq : a = (x, x)
    · exact heq ▸ SimpleGraph.Reachable.refl _
    · refine SimpleGraph.Adj.reachable ⟨heq, ?_⟩
      rw [hpoints] at ha
      rcases List.mem_cons.mp ha with rfl | ha
      · exact ⟨_, List.mem_cons_self, Or.inl ⟨rfl, rfl⟩⟩
      · refine ⟨_, List.mem_cons_of_mem _ List.mem_cons_self, Or.inr ⟨rfl, ?_⟩⟩
        simpa [heq, eq_comm, GSegment.final, RoutePt.loc] using ha
  refine ⟨List.mem_cons_self, fun a ha b hb => (hbend a ha).trans (hbend b hb).symm, ?_, fun p hp _ => ?_⟩
  · rw [hpoints]
    exact List.mem_cons_self
  · rw [hpoints]
    rcases List.mem_cons.mp hp with rfl | hp
    · exact List.mem_cons_self
    · rw [List.mem_singleton.mp hp]
      simp

/-- The pins of `SteinerTree.twoPins`. -/
def straightPins : NetPins where
  pins := [(0, (0, 0)), (1, (10, 0))]
  nodup := (by decide : [0, 1].Nodup)
  isLoad := fun pin => pin == 1

end OpenRoad.Rsz
