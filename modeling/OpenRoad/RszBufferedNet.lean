import Mathlib.Combinatorics.SimpleGraph.Acyclic
import OpenRoad.Run

/-!
Buffered nets from global routes. The routes are searched from the driver on, each point once; the
loads at a point and the nets behind it are joined, and a wire leads back to the point before it.
-/

namespace OpenRoad.Rsz

open Run

abbrev Point := Int × Int

theorem Point.lawfulBEq : LawfulBEq Point := inferInstance

attribute [local instance] Point.lawfulBEq

def manhattanDistance (a b : Point) : Int := |a.1 - b.1| + |a.2 - b.2|

inductive BufferedNet where
  | load (location : Point) (loadPin : Nat)
  | junction (location : Point) (ref ref2 : BufferedNet)
  | wire (location : Point) (layer : Int) (ref : BufferedNet)

namespace BufferedNet

def location : BufferedNet → Point
  | load loc _ => loc
  | junction loc _ _ => loc
  | wire loc _ _ => loc

/-- The load pins, each with the length of the wires that lead to it. -/
def loads : BufferedNet → List (Nat × Int)
  | load _ pin => [(pin, 0)]
  | junction _ ref ref2 => ref.loads ++ ref2.loads
  | wire loc _ ref => ref.loads.map fun l => (l.1, l.2 + manhattanDistance loc ref.location)

end BufferedNet

/-- A second net is joined to the first, if there is one. -/
def joinNet (loc : Point) : Option BufferedNet → Option BufferedNet → Option BufferedNet
  | none, bnet1 => bnet1
  | some bnet, none => some bnet
  | some bnet, some bnet1 => some (.junction loc bnet bnet1)

/-- The pins of a net, with their locations on the grid, and which of them are loads. -/
structure NetPins where
  pins : List (Nat × Point)
  nodup : (pins.map Prod.fst).Nodup
  isLoad : Nat → Bool

namespace NetPins

variable (net : NetPins)

/-- `loc_pin_map` -/
def locPins (loc : Point) : List Nat := (net.pins.filter fun p => decide (p.2 = loc)).map Prod.fst

/-- The loads at a location, joined. -/
def loadNet (loc : Point) (pins : List Nat) : Option BufferedNet :=
  pins.foldl (fun bnet pin => if net.isLoad pin then joinNet loc bnet (some (.load loc pin)) else bnet) none

def loadsAt (loc : Point) : List Nat := (net.locPins loc).filter net.isLoad

end NetPins

/-! ### Routes -/

structure RoutePt where
  x : Int
  y : Int
  layer : Int
  deriving DecidableEq

def RoutePt.loc (pt : RoutePt) : Point := (pt.x, pt.y)

def routePtNull : RoutePt := ⟨0, 0, 0⟩

def routePtLocEq (p1 p2 : RoutePt) : Bool := p1.x == p2.x && p1.y == p2.y

structure GSegment where
  initX : Int
  initY : Int
  initLayer : Int
  finalX : Int
  finalY : Int
  finalLayer : Int

namespace GSegment

variable (seg : GSegment)

def init : RoutePt := ⟨seg.initX, seg.initY, seg.initLayer⟩

def final : RoutePt := ⟨seg.finalX, seg.finalY, seg.finalLayer⟩

def isVia : Bool := seg.initX == seg.finalX && seg.initY == seg.finalY

end GSegment

section

variable (net : NetPins) (adjacents : Point → List RoutePt)

/-- The net behind `dest`, coming from `prev`; `none` means that there is no fuel. -/
def makeBufferedNet : Nat → List Point → RoutePt → RoutePt → Option (Option BufferedNet × List Point)
  | 0, _, _, _ => none
  | fuel + 1, visited, prev, dest =>
      if dest.loc ∈ visited then some (none, visited)
      else
        (run (fun st adj =>
            if routePtLocEq adj prev then some st
            else (makeBufferedNet fuel st.2 dest adj).map fun r => (joinNet dest.loc st.1 r.1, r.2))
          (net.loadNet dest.loc (net.locPins dest.loc), visited ++ [dest.loc]) (adjacents dest.loc)).map
          fun st =>
            (if !routePtLocEq prev routePtNull && !routePtLocEq dest prev then
              st.1.map (.wire prev.loc prev.layer) else st.1, st.2)

/-- All pins are at one place of the grid. -/
def NetPins.isLocal : Bool :=
  match net.pins with
  | [] => true
  | first :: _ => net.pins.all fun p => p.2 == first.2

/-- The segments that count: vias only if all pins are at one place. -/
def routeSegments (route : List GSegment) : List GSegment :=
  route.filter fun seg => !seg.isVia || net.isLocal

def routeAdjacents (segs : List GSegment) (loc : Point) : List RoutePt :=
  segs.flatMap fun seg =>
    (if seg.init.loc = loc then [seg.final] else []) ++ if seg.final.loc = loc then [seg.init] else []

/-- The last end of a segment where the driver is. -/
def drvrRoutePt (segs : List GSegment) (drvrLoc : Point) : Option RoutePt :=
  segs.foldl (fun pt seg =>
    let pt := if seg.init.loc = drvrLoc then some seg.init else pt
    if seg.final.loc = drvrLoc then some seg.final else pt) none

/-- `makeBufferedNetGroute`; the outer `none` means that there is no fuel. Without a driver on the
routes there is no net. -/
def makeBufferedNetGroute (drvrPin : Nat) (route : List GSegment) : Option (Option BufferedNet) :=
  match net.pins.findSome? fun p => if p.1 = drvrPin then some p.2 else none with
  | none => some none
  | some drvrLoc =>
      let segs := routeSegments net route
      match drvrRoutePt segs drvrLoc with
      | none => some none
      | some pt => (makeBufferedNet net (routeAdjacents segs) (2 * segs.length + 1) [] routePtNull pt).map
          Prod.fst

end

/-! ### What the net is for -/

def netLoads (bnet : Option BufferedNet) : List (Nat × Int) := bnet.elim [] BufferedNet.loads

/-- The sum of the edges of a path. -/
def pathLength : List Point → Int
  | a :: b :: path => manhattanDistance a b + pathLength (b :: path)
  | _ => 0

/-- Every load of the net is in exactly one load node. -/
def KeepsLoads (net : NetPins) (bnet : Option BufferedNet) : Prop :=
  ((netLoads bnet).map Prod.fst).Nodup ∧
    ∀ pin, pin ∈ (netLoads bnet).map Prod.fst ↔ net.isLoad pin = true ∧ pin ∈ net.pins.map Prod.fst

def routePoints (segs : List GSegment) : List Point :=
  segs.flatMap fun seg => [seg.init.loc, seg.final.loc]

/-- Two points are adjacent when a segment joins them. -/
def routeGraph (segs : List GSegment) : SimpleGraph Point where
  Adj a b := a ≠ b ∧ ∃ seg ∈ segs,
    seg.init.loc = a ∧ seg.final.loc = b ∨ seg.init.loc = b ∧ seg.final.loc = a
  symm := ⟨fun _ _ h => ⟨h.1.symm, h.2.imp fun _ hseg => ⟨hseg.1, hseg.2.symm⟩⟩⟩
  loopless := ⟨fun _ h => h.1 rfl⟩

section Join

variable {net : NetPins} {loc : Point}

theorem netLoads_joinNet (a b : Option BufferedNet) :
    netLoads (joinNet loc a b) = netLoads a ++ netLoads b := by
  cases a <;> cases b <;> simp [joinNet, netLoads, BufferedNet.loads]

/-- The net is at a location, if there is one. -/
def AtLoc (loc : Point) (bnet : Option BufferedNet) : Prop := ∀ b ∈ bnet, b.location = loc

theorem AtLoc.joinNet {a b : Option BufferedNet} (ha : AtLoc loc a) (hb : AtLoc loc b) :
    AtLoc loc (joinNet loc a b) := by
  rcases a with _ | a
  · exact hb
  · rcases b with _ | b
    · exact ha
    · rintro _ ⟨⟩
      rfl

theorem loadNet_spec (net : NetPins) (loc : Point) (pins : List Nat) :
    netLoads (net.loadNet loc pins) = (pins.filter net.isLoad).map (·, 0) ∧
      AtLoc loc (net.loadNet loc pins) := by
  induction pins using List.reverseRecOn with
  | nil => exact ⟨rfl, fun _ h => absurd h (Option.not_mem_none _)⟩
  | append_singleton pins pin ih =>
      unfold NetPins.loadNet at ih ⊢
      rw [List.foldl_append, List.foldl_cons, List.foldl_nil, List.filter_append]
      split
      · rename_i hload
        rw [netLoads_joinNet, ih.1]
        exact ⟨by simp [hload, netLoads, BufferedNet.loads], ih.2.joinNet (by rintro _ ⟨⟩; rfl)⟩
      · rename_i hload
        exact ⟨by simp [hload, ih.1], ih.2⟩

theorem netLoads_wire {layer : Int} {bnet : Option BufferedNet} {loc' : Point} (h : AtLoc loc' bnet) :
    netLoads (bnet.map (.wire loc layer)) =
      (netLoads bnet).map fun l => (l.1, l.2 + manhattanDistance loc loc') := by
  cases bnet with
  | none => rfl
  | some b => simp [netLoads, BufferedNet.loads, h b rfl]

theorem mem_loadsAt {pin : Nat} :
    pin ∈ net.loadsAt loc ↔ net.isLoad pin = true ∧ (pin, loc) ∈ net.pins := by
  simp [NetPins.loadsAt, NetPins.locPins, and_comm]

/-- Visiting every location of a load once keeps the loads. -/
theorem keepsLoads {bnet : Option BufferedNet} {visited : List Point} (hnodup : visited.Nodup)
    (hloads : ((netLoads bnet).map Prod.fst).Perm (visited.flatMap net.loadsAt))
    (hall : ∀ p ∈ net.pins, net.isLoad p.1 = true → p.2 ∈ visited) : KeepsLoads net bnet := by
  constructor
  · refine hloads.nodup_iff.mpr (List.nodup_flatMap.mpr ⟨fun loc _ => ?_, ?_⟩)
    · exact (net.nodup.sublist (List.filter_sublist.map _)).filter _
    · refine hnodup.imp fun hne => List.disjoint_left.mpr fun pin h h' => hne ?_
      have heq := List.inj_on_of_nodup_map net.nodup (mem_loadsAt.mp h).2 (mem_loadsAt.mp h').2 rfl
      exact congrArg Prod.snd heq
  · intro pin
    rw [hloads.mem_iff, List.mem_flatMap]
    simp only [mem_loadsAt, List.mem_map]
    constructor
    · rintro ⟨loc, -, hload, hpin⟩
      exact ⟨hload, _, hpin, rfl⟩
    · rintro ⟨hload, ⟨_, loc⟩, hpin, rfl⟩
      exact ⟨loc, hall _ hpin hload, hload, hpin⟩

end Join

/-! ### The search -/

section Search

variable {net : NetPins} {adjacents : Point → List RoutePt} {graph : SimpleGraph Point}

theorem routePtLocEq_iff {p q : RoutePt} : routePtLocEq p q = true ↔ p.loc = q.loc := by
  simp [routePtLocEq, RoutePt.loc]

/-- What a search that visits the locations of `new` has found: the loads at these. -/
structure Grown (net : NetPins) (visited new : List Point) (r : Option BufferedNet × List Point) :
    Prop where
  visited : r.2 = visited ++ new
  nodup : r.2.Nodup
  loads : ((netLoads r.1).map Prod.fst).Perm (new.flatMap net.loadsAt)

/-- What a second search finds after the first one joins it. -/
theorem Grown.join {visited new visited' new' : List Point} {loc : Point} {bnet : Option BufferedNet}
    {r : Option BufferedNet × List Point} (h : Grown net visited new (bnet, visited'))
    (h' : Grown net visited' new' r) : Grown net visited (new ++ new') (joinNet loc bnet r.1, r.2) where
  visited := by
    rw [h'.visited, show visited' = _ from h.visited, List.append_assoc]
  nodup := h'.nodup
  loads := by
    rw [netLoads_joinNet, List.map_append, List.flatMap_append]
    exact h.loads.append h'.loads

theorem Grown.kept {visited new : List Point} {r : Option BufferedNet × List Point}
    (h : Grown net visited new r) {v : Point} (hv : v ∈ visited) : v ∈ r.2 ∧ v ∉ new := by
  rw [h.visited]
  exact ⟨List.mem_append_left _ hv, fun hnew =>
    List.disjoint_of_nodup_append (h.visited ▸ h.nodup) hv hnew⟩

/-- Each load is behind wires of the length of a path to it in `new`, and `offset` more. -/
def Reached (net : NetPins) (graph : SimpleGraph Point) (new : List Point) (a : Point) (offset : Int)
    (bnet : Option BufferedNet) : Prop :=
  ∀ l ∈ netLoads bnet, ∃ v, l.1 ∈ net.loadsAt v ∧ ∃ p : graph.Walk a v, p.IsPath ∧
    (∀ x ∈ p.support, x ∈ new) ∧ l.2 = pathLength p.support + offset

theorem pathLength_cons {a b v : Point} (hadj : graph.Adj a b) (p : graph.Walk b v) :
    pathLength (SimpleGraph.Walk.cons hadj p).support =
      pathLength p.support + manhattanDistance a b := by
  rw [SimpleGraph.Walk.support_cons, ← p.cons_tail_support, pathLength, Int.add_comm]

/-- The paths of a neighbour are continued to `a`. -/
theorem Reached.join {new new' : List Point} {a b : Point} {bnet bnet' : Option BufferedNet}
    (h : Reached net graph (a :: new) a 0 bnet)
    (h' : Reached net graph new' b (manhattanDistance a b) bnet') (hnot : a ∉ new')
    (hadj : b ∈ new' → graph.Adj a b) :
    Reached net graph (a :: (new ++ new')) a 0 (joinNet a bnet bnet') := by
  intro l hl
  rw [netLoads_joinNet] at hl
  rcases List.mem_append.mp hl with hl | hl
  · obtain ⟨v, hv, p, hp, hsub, hlen⟩ := h l hl
    refine ⟨v, hv, p, hp, fun x hx => ?_, hlen⟩
    rw [← List.cons_append]
    exact List.mem_append_left _ (hsub x hx)
  · obtain ⟨v, hv, p, hp, hsub, hlen⟩ := h' l hl
    refine ⟨v, hv, .cons (hadj (hsub b p.start_mem_support)) p, ?_, fun x hx => ?_, ?_⟩
    · exact hp.cons fun hmem => hnot (hsub a hmem)
    · rcases List.mem_cons.mp ((SimpleGraph.Walk.support_cons _ p) ▸ hx) with rfl | hx
      · exact List.mem_cons_self
      · exact List.mem_cons_of_mem _ (List.mem_append_right _ (hsub x hx))
    · rw [pathLength_cons, hlen, Int.add_zero]

/-- The routes from the points of `pts` lead to points of `pts`, none of which is the origin. -/
structure RoutesIn (pts : Finset Point) (adjacents : Point → List RoutePt) (graph : SimpleGraph Point) :
    Prop where
  origin : (0, 0) ∉ pts
  mem : ∀ v, ∀ adj ∈ adjacents v, adj.loc ∈ pts
  adj : ∀ v, ∀ adj ∈ adjacents v, v ≠ adj.loc → graph.Adj v adj.loc

/-- The neighbours of the points of `new` have been visited. -/
def ClosedIn (adjacents : Point → List RoutePt) (new visited : List Point) : Prop :=
  ∀ v ∈ new, ∀ adj ∈ adjacents v, adj.loc ∈ visited

/-- The loop over the neighbours of `dest`: those that are no longer in `adjs` have been visited. -/
structure Searched (net : NetPins) (adjacents : Point → List RoutePt) (graph : SimpleGraph Point)
    (visited : List Point) (dest : Point) (adjs : List RoutePt)
    (st : Option BufferedNet × List Point) : Prop where
  mem : ∀ adj ∈ adjs, adj ∈ adjacents dest
  done : ∀ adj ∈ adjacents dest, adj ∈ adjs ∨ adj.loc ∈ st.2
  atLoc : AtLoc dest st.1
  grown : ∃ more, Grown net visited (dest :: more) st ∧ Reached net graph (dest :: more) dest 0 st.1 ∧
    ClosedIn adjacents more st.2

/-- All points are found that can be reached without meeting one that was visited before; at the root,
no wire leads back. -/
theorem makeBufferedNet_spec {pts : Finset Point} (h : RoutesIn pts adjacents graph) (fuel : Nat)
    (visited : List Point) (prev dest : RoutePt) (hdest : dest.loc ∈ pts) (hnodup : visited.Nodup)
    (hprev : prev.loc ∈ visited ∧ prev.loc ∈ pts ∨ prev = routePtNull)
    (hfuel : (pts \ visited.toFinset).card < fuel) :
    ∃ r new, makeBufferedNet net adjacents fuel visited prev dest = some r ∧ dest.loc ∈ r.2 ∧
      Grown net visited new r ∧ Reached net graph new dest.loc
        (if prev = routePtNull then 0 else manhattanDistance prev.loc dest.loc) r.1 ∧
      ClosedIn adjacents new r.2 ∧ (prev ≠ routePtNull → AtLoc prev.loc r.1) := by
  induction fuel generalizing visited prev dest with
  | zero => exact absurd hfuel (Nat.not_lt_zero _)
  | succ fuel ih =>
      unfold makeBufferedNet
      split
      · rename_i hmem
        exact ⟨_, [], rfl, hmem, ⟨(List.append_nil _).symm, hnodup, List.Perm.refl _⟩,
          fun l hl => absurd hl List.not_mem_nil, fun v hv => absurd hv List.not_mem_nil,
          fun _ b hb => absurd hb (Option.not_mem_none b)⟩
      · rename_i hnew
        have hnull : dest ≠ routePtNull := by
          rintro rfl
          exact h.origin hdest
        obtain ⟨hload, hat⟩ := loadNet_spec net dest.loc (net.locPins dest.loc)
        have hstart : Searched net adjacents graph visited dest.loc (adjacents dest.loc)
            (net.loadNet dest.loc (net.locPins dest.loc), visited ++ [dest.loc]) := by
          refine ⟨fun _ hadj => hadj, fun _ hadj => Or.inl hadj, hat, [], ⟨rfl, ?_, ?_⟩, fun l hl => ?_,
            fun v hv => absurd hv List.not_mem_nil⟩
          · exact List.nodup_append.mpr ⟨hnodup, List.nodup_singleton _, fun a ha b hb heq =>
              hnew (List.mem_singleton.mp hb ▸ heq ▸ ha)⟩
          · rw [hload, List.map_map, List.flatMap_singleton]
            exact List.Perm.of_eq (List.map_id _)
          · rw [hload] at hl
            obtain ⟨pin, hpin, rfl⟩ := List.mem_map.mp hl
            refine ⟨dest.loc, hpin, .nil, .nil, fun x hx => ?_, rfl⟩
            exact (List.mem_singleton.mp hx) ▸ List.mem_cons_self
        have hstep : ∀ adj adjs st, Searched net adjacents graph visited dest.loc (adj :: adjs) st →
            ∃ st', (if routePtLocEq adj prev then some st
              else (makeBufferedNet net adjacents fuel st.2 dest adj).map
                fun r => (joinNet dest.loc st.1 r.1, r.2)) = some st' ∧
              Searched net adjacents graph visited dest.loc adjs st' := by
          rintro adj adjs st ⟨hmem, hdone, hat', more, hgrown, hreached, hclosed⟩
          have hadj := hmem adj List.mem_cons_self
          have hdest' : dest.loc ∈ st.2 := by
            rw [hgrown.visited]
            exact List.mem_append_right _ List.mem_cons_self
          split
          · -- the way back: that point has been visited, for the root has none
            rename_i hback
            have hloc := routePtLocEq_iff.mp hback
            have hin : adj.loc ∈ st.2 := by
              rcases hprev with ⟨hvisited, -⟩ | rfl
              · rw [hloc, hgrown.visited]
                exact List.mem_append_left _ hvisited
              · have horigin : adj.loc = (0, 0) := hloc
                exact absurd (horigin ▸ h.mem _ adj hadj) h.origin
            refine ⟨st, rfl, fun a ha => hmem a (List.mem_cons_of_mem _ ha), fun a ha => ?_, hat', more,
              hgrown, hreached, hclosed⟩
            rcases hdone a ha with hrest | hrest
            · rcases List.mem_cons.mp hrest with rfl | hrest
              · exact Or.inr hin
              · exact Or.inl hrest
            · exact Or.inr hrest
          · have hless : (pts \ st.2.toFinset).card < (pts \ visited.toFinset).card := by
              refine Finset.card_lt_card ⟨fun v hv => ?_, fun hsub => ?_⟩
              · rw [Finset.mem_sdiff, List.mem_toFinset] at hv ⊢
                exact ⟨hv.1, fun hin => hv.2 (hgrown.visited ▸ List.mem_append_left _ hin)⟩
              · have hin := hsub (Finset.mem_sdiff.mpr ⟨hdest, fun hin => hnew (List.mem_toFinset.mp hin)⟩)
                exact (Finset.mem_sdiff.mp hin).2 (List.mem_toFinset.mpr hdest')
            obtain ⟨r, new, hr, hin, hgrown', hreached', hclosed', hat''⟩ := ih st.2 dest adj
              (h.mem _ adj hadj) hgrown.nodup (Or.inl ⟨hdest', hdest⟩) (by omega)
            rw [if_neg hnull] at hreached'
            have hnot := (hgrown'.kept hdest').2
            rw [hr]
            refine ⟨_, rfl, fun a ha => hmem a (List.mem_cons_of_mem _ ha), fun a ha => ?_,
              hat'.joinNet (hat'' hnull), more ++ new, hgrown.join hgrown',
              hreached.join hreached' hnot fun hb => h.adj _ adj hadj fun heq => hnot (heq ▸ hb),
              fun v hv a ha => ?_⟩
            · rcases hdone a ha with hrest | hrest
              · rcases List.mem_cons.mp hrest with rfl | hrest
                · exact Or.inr hin
                · exact Or.inl hrest
              · exact Or.inr (hgrown'.kept hrest).1
            · rcases List.mem_append.mp hv with hv | hv
              · exact (hgrown'.kept (hclosed v hv a ha)).1
              · exact hclosed' v hv a ha
        obtain ⟨⟨bnet, visited'⟩, hrun, -, hdone, hat', more, hgrown, hreached, hclosed⟩ :=
          run_total hstep _ _ hstart
        have hin : dest.loc ∈ visited' := by
          rw [show visited' = _ from hgrown.visited]
          exact List.mem_append_right _ List.mem_cons_self
        have hclosed' : ClosedIn adjacents (dest.loc :: more) visited' := by
          intro v hv adj hadj
          rcases List.mem_cons.mp hv with rfl | hv
          · exact (hdone adj hadj).resolve_left List.not_mem_nil
          · exact hclosed v hv adj hadj
        rw [hrun, Option.map_some]
        rcases hprev with ⟨hvisited, hpts⟩ | rfl
        · have hne : prev ≠ routePtNull := by
            rintro rfl
            exact h.origin hpts
          have hwire : (!routePtLocEq prev routePtNull && !routePtLocEq dest prev) = true := by
            rw [Bool.and_eq_true, Bool.not_eq_true', Bool.not_eq_true', ← Bool.not_eq_true,
              ← Bool.not_eq_true, routePtLocEq_iff, routePtLocEq_iff]
            exact ⟨fun heq => h.origin ((show prev.loc = (0, 0) from heq) ▸ hpts),
              fun heq => hnew (heq ▸ hvisited)⟩
          rw [if_pos hwire, if_neg hne]
          refine ⟨_, dest.loc :: more, rfl, hin, ⟨hgrown.visited, hgrown.nodup, ?_⟩,
            fun l hl => ?_, hclosed', fun _ b hb => ?_⟩
          · rw [netLoads_wire hat', List.map_map]
            exact hgrown.loads
          · rw [netLoads_wire hat'] at hl
            obtain ⟨l', hl', rfl⟩ := List.mem_map.mp hl
            obtain ⟨v, hv, p, hp, hsub, hlen⟩ := hreached l' hl'
            exact ⟨v, hv, p, hp, hsub, by rw [hlen, Int.add_zero]⟩
          · obtain ⟨b', -, rfl⟩ := Option.map_eq_some_iff.mp hb
            rfl
        · exact ⟨_, dest.loc :: more, rfl, hin, hgrown, hreached, hclosed', fun hroot => absurd rfl hroot⟩

end Search

/-! ### The net of a route -/

/-- The routes connect their points, and the driver and all loads are at some of them. -/
structure Routed (net : NetPins) (drvrPin : Nat) (drvrLoc : Point) (segs : List GSegment) : Prop where
  driver : (drvrPin, drvrLoc) ∈ net.pins
  connected : ∀ a ∈ routePoints segs, ∀ b ∈ routePoints segs, (routeGraph segs).Reachable a b
  drvrLoc_mem : drvrLoc ∈ routePoints segs
  load_mem : ∀ p ∈ net.pins, net.isLoad p.1 = true → p.2 ∈ routePoints segs

section Route

variable {net : NetPins} {segs : List GSegment} {a b : Point}

theorem mem_routePoints : a ∈ routePoints segs ↔ ∃ seg ∈ segs, seg.init.loc = a ∨ seg.final.loc = a := by
  simp [routePoints, eq_comm]

theorem mem_routeAdjacents {adj : RoutePt} : adj ∈ routeAdjacents segs a ↔
    ∃ seg ∈ segs, seg.init.loc = a ∧ adj = seg.final ∨ seg.final.loc = a ∧ adj = seg.init := by
  simp [routeAdjacents, List.mem_ite_nil_right]

theorem routesIn (horigin : (0, 0) ∉ routePoints segs) :
    RoutesIn (routePoints segs).toFinset (routeAdjacents segs) (routeGraph segs) where
  origin := fun hmem => horigin (List.mem_toFinset.mp hmem)
  mem := fun v adj hadj => by
    obtain ⟨seg, hseg, ⟨-, rfl⟩ | ⟨-, rfl⟩⟩ := mem_routeAdjacents.mp hadj
    · exact List.mem_toFinset.mpr (mem_routePoints.mpr ⟨seg, hseg, Or.inr rfl⟩)
    · exact List.mem_toFinset.mpr (mem_routePoints.mpr ⟨seg, hseg, Or.inl rfl⟩)
  adj := fun v adj hadj hne => by
    obtain ⟨seg, hseg, ⟨hv, rfl⟩ | ⟨hv, rfl⟩⟩ := mem_routeAdjacents.mp hadj
    · exact ⟨hne, seg, hseg, Or.inl ⟨hv, rfl⟩⟩
    · exact ⟨hne, seg, hseg, Or.inr ⟨rfl, hv⟩⟩

/-- What is closed under the neighbours has all points that can be reached from it. -/
theorem mem_of_reachable {visited : List Point} (hclosed : ClosedIn (routeAdjacents segs) visited visited)
    (h : (routeGraph segs).Reachable a b) (ha : a ∈ visited) : b ∈ visited := by
  obtain ⟨walk⟩ := h
  induction walk with
  | nil => exact ha
  | cons hadj _ ih =>
      refine ih ?_
      obtain ⟨-, seg, hseg, ⟨hinit, hfinal⟩ | ⟨hinit, hfinal⟩⟩ := hadj
      · exact hfinal ▸ hclosed _ ha seg.final (mem_routeAdjacents.mpr ⟨seg, hseg, Or.inl ⟨hinit, rfl⟩⟩)
      · exact hinit ▸ hclosed _ ha seg.init (mem_routeAdjacents.mpr ⟨seg, hseg, Or.inr ⟨hfinal, rfl⟩⟩)

theorem drvrRoutePt_spec (segs : List GSegment) (drvrLoc : Point) :
    (∀ pt ∈ drvrRoutePt segs drvrLoc, pt.loc = drvrLoc) ∧
      (drvrLoc ∈ routePoints segs → (drvrRoutePt segs drvrLoc).isSome = true) := by
  induction segs using List.reverseRecOn with
  | nil => exact ⟨fun _ h => absurd h (Option.not_mem_none _), fun h => absurd h List.not_mem_nil⟩
  | append_singleton segs seg ih =>
      unfold drvrRoutePt at ih ⊢
      rw [List.foldl_append, List.foldl_cons, List.foldl_nil]
      dsimp only
      constructor
      · intro pt hpt
        split at hpt
        · obtain rfl := Option.some.inj hpt
          assumption
        · split at hpt
          · obtain rfl := Option.some.inj hpt
            assumption
          · exact ih.1 pt hpt
      · intro hmem
        split
        · rfl
        · split
          · rfl
          · rename_i hfinal hinit
            refine ih.2 (mem_routePoints.mpr ?_)
            obtain ⟨seg', hseg, hat⟩ := mem_routePoints.mp hmem
            rcases List.mem_append.mp hseg with hseg | hseg
            · exact ⟨seg', hseg, hat⟩
            · rw [List.mem_singleton.mp hseg] at hat
              exact absurd hat (not_or.mpr ⟨hinit, hfinal⟩)

/-- Routes that do not meet the origin keep all loads, at the length of their paths. -/
theorem makeBufferedNetGroute_spec {drvrPin : Nat} {drvrLoc : Point} {route : List GSegment}
    (h : Routed net drvrPin drvrLoc (routeSegments net route))
    (horigin : (0, 0) ∉ routePoints (routeSegments net route)) :
    ∃ bnet, makeBufferedNetGroute net drvrPin route = some bnet ∧ KeepsLoads net bnet ∧
      ((routeGraph (routeSegments net route)).IsAcyclic → ∀ l ∈ netLoads bnet, ∀ loc,
        (l.1, loc) ∈ net.pins → ∀ p : (routeGraph (routeSegments net route)).Path drvrLoc loc,
          l.2 = pathLength p.1.support) := by
  have hfind : net.pins.findSome? (fun p => if p.1 = drvrPin then some p.2 else none) = some drvrLoc := by
    cases hfound : net.pins.findSome? (fun p => if p.1 = drvrPin then some p.2 else none) with
    | none => simpa using List.findSome?_eq_none_iff.mp hfound _ h.driver
    | some loc =>
        obtain ⟨p, hp, hsome⟩ := List.exists_of_findSome?_eq_some hfound
        rw [Option.ite_none_right_eq_some] at hsome
        obtain ⟨hpin, hloc⟩ := hsome
        have heq := List.inj_on_of_nodup_map net.nodup hp h.driver hpin
        rw [← hloc, heq]
  obtain ⟨hat, hsome⟩ := drvrRoutePt_spec (routeSegments net route) drvrLoc
  obtain ⟨pt, hpt⟩ := Option.isSome_iff_exists.mp (hsome h.drvrLoc_mem)
  obtain rfl := hat pt hpt
  have hfuel : ((routePoints (routeSegments net route)).toFinset \ ([] : List Point).toFinset).card <
      2 * (routeSegments net route).length + 1 := by
    refine Nat.lt_succ_of_le (le_trans (Finset.card_le_card Finset.sdiff_subset)
      (le_trans (List.toFinset_card_le _) ?_))
    simp [routePoints, List.length_flatMap, Nat.mul_comm]
  obtain ⟨⟨bnet, visited⟩, new, hrun, hin, hgrown, hreached, hclosed, -⟩ := makeBufferedNet_spec
    (routesIn horigin) _ [] routePtNull pt (List.mem_toFinset.mpr h.drvrLoc_mem) List.nodup_nil (Or.inr rfl) hfuel
  obtain rfl : visited = new := hgrown.visited
  refine ⟨bnet, ?_, keepsLoads hgrown.nodup hgrown.loads fun p hp hload => ?_, fun hacyclic l hl loc hloc p => ?_⟩
  · unfold makeBufferedNetGroute
    rw [hfind]
    dsimp only
    rw [hpt]
    dsimp only
    rw [hrun]
    rfl
  · exact mem_of_reachable hclosed (h.connected _ h.drvrLoc_mem _ (h.load_mem p hp hload)) hin
  · obtain ⟨v, hv, q, hq, -, hlen⟩ := hreached l hl
    obtain rfl : v = loc := congrArg Prod.snd
      (List.inj_on_of_nodup_map net.nodup (mem_loadsAt.mp hv).2 hloc rfl)
    rw [hlen, if_pos rfl, Int.add_zero, (hacyclic.subsingleton_path _ _).elim p ⟨q, hq⟩]

end Route

end OpenRoad.Rsz
