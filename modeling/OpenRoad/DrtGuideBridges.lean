import OpenRoad.IntervalMerge
import OpenRoad.OrderedMap
import OpenRoad.DbGeometry
import Mathlib.Logic.Relation
import Mathlib.Algebra.Order.Group.Int

/-!
Bridges between guides that touch. The guides of a net are kept as spans of gcell indices by layer
and track; on the layers two apart tracks and indices change places. Guides that meet at a corner
are joined on their own layer, and guides side by side through a guide across them on a layer two
apart.
-/

namespace OpenRoad.Drt

open JoinedSpans (Span SpanSet)

/-- `TrackIntervals` -/
abbrev TrackSpans := OrderedMap Int SpanSet

/-- `TrackIntervalsByLayer` -/
abbrev LayerSpans := List TrackSpans

inductive BridgeFault where
  /-- error 228 -/
  | noBridgeLayer
  deriving DecidableEq

namespace LayerSpans

def spansOf (tracks : TrackSpans) (track : Int) : SpanSet :=
  (tracks.find? track).getD SpanSet.empty

def spansAt (intvs : LayerSpans) (layer : Nat) (track : Int) : SpanSet :=
  spansOf (intvs.getD layer OrderedMap.empty) track

/-- `intvs[layer_num][track_idx].insert(interval)` -/
def insertAt (intvs : LayerSpans) (layer : Nat) (track : Int) (s : Span) : LayerSpans :=
  intvs.modify layer fun tracks => tracks.alter track SpanSet.empty (·.insert s)

end LayerSpans

open LayerSpans

/-! ### The guides of a net -/

/-- A guide in gcells, the ends included. -/
structure GCellGuide where
  layerNum : Nat
  x1 : Int
  y1 : Int
  x2 : Int
  y2 : Int

/-- The guide along the tracks of its layer. -/
def GCellGuide.insertInto (isHorizontal : Nat → Bool) (intvs : LayerSpans) (guide : GCellGuide) :
    LayerSpans :=
  let (first, last, lower, upper) :=
    if isHorizontal guide.layerNum then (guide.y1, guide.y2, guide.x1, guide.x2)
    else (guide.x1, guide.x2, guide.y1, guide.y2)
  if h : lower ≤ upper then
    (List.range (last + 1 - first).toNat).foldl (fun intvs (k : Nat) =>
      insertAt intvs guide.layerNum (first + k) ⟨lower, upper, h⟩) intvs
  else intvs

def initGuideIntervals (isHorizontal : Nat → Bool) (guides : List GCellGuide)
    (intvs : LayerSpans) : LayerSpans :=
  guides.foldl (GCellGuide.insertInto isHorizontal) intvs

/-! ### Corners -/

/-- The loop over every other layer, on which the two indices change places. -/
def gcellHasGuideFrom (swaps : Bool) : Int → Int → LayerSpans → Bool
  | _, _, [] => false
  | pivot, other, [tracks] => (spansOf tracks pivot).contains other
  | pivot, other, tracks :: _ :: layers =>
      (spansOf tracks pivot).contains other ||
        if swaps then gcellHasGuideFrom swaps other pivot layers
        else gcellHasGuideFrom swaps pivot other layers

def gcellHasGuide (pivot other : Int) (layer : Nat) (intvs : LayerSpans) : Bool :=
  if layer % 4 = 2 then gcellHasGuideFrom (layer % 2 = 0) other pivot intvs
  else gcellHasGuideFrom (layer % 2 = 0) pivot other intvs

/-- An interval from an index to the next one. -/
def step (i : Int) : Span := ⟨i, i + 1, by omega⟩

/-- The body of the innermost loop. -/
def connectCorner (layer : Nat) (curr prev : Int) (intv1 intv2 : Span) (intvs : LayerSpans) :
    LayerSpans :=
  if intv1.intersects intv2 then intvs
  else if intv1.upper + 1 = intv2.lower ∧ !gcellHasGuide curr (intv1.upper + 1) layer intvs ∧
      !gcellHasGuide prev intv1.upper layer intvs then
    insertAt intvs layer curr (step intv1.upper)
  else if intv2.upper + 1 = intv1.lower ∧ !gcellHasGuide prev (intv2.upper + 1) layer intvs ∧
      !gcellHasGuide curr intv2.upper layer intvs then
    insertAt intvs layer prev (step intv2.upper)
  else intvs

/-- The iterator: the interval behind the last one, as the set is now. -/
def nextSpan (set : SpanSet) (last : Option Span) : Option Span :=
  set.spans.find? fun s => match last with
    | none => true
    | some l => l.lower < s.lower

/-- The loop over the intervals of the previous track. -/
def connectCornersPrev (layer : Nat) (curr prev : Int) (intv1 : Span) :
    Nat → Option Span → LayerSpans → LayerSpans
  | 0, _, intvs => intvs
  | fuel + 1, last, intvs =>
      match nextSpan (spansAt intvs layer prev) last with
      | none => intvs
      | some intv2 =>
          connectCornersPrev layer curr prev intv1 fuel (some intv2)
            (connectCorner layer curr prev intv1 intv2 intvs)

/-- The loop over the intervals of the current track. -/
def connectCornersCurr (layer : Nat) (curr prev : Int) :
    Nat → Option Span → LayerSpans → LayerSpans
  | 0, _, intvs => intvs
  | fuel + 1, last, intvs =>
      match nextSpan (spansAt intvs layer curr) last with
      | none => intvs
      | some intv1 =>
          connectCornersCurr layer curr prev fuel (some intv1)
            (connectCornersPrev layer curr prev intv1
              ((spansAt intvs layer prev).spans.length + 1) none intvs)

/-- The loop over the tracks of a layer. -/
def connectCornersTracks (layer : Nat) : Int → List Int → LayerSpans → LayerSpans
  | _, [], intvs => intvs
  | prev, curr :: tracks, intvs =>
      connectCornersTracks layer curr tracks
        (if curr = prev + 1 then
          connectCornersCurr layer curr prev ((spansAt intvs layer curr).spans.length + 1) none intvs
        else intvs)

def connectCornersLayer (intvs : LayerSpans) (layer : Nat) : LayerSpans :=
  connectCornersTracks layer (-2) (intvs.getD layer OrderedMap.empty).keys intvs

/-- The first loop, from the top layer down. -/
def connectCorners (intvs : LayerSpans) : LayerSpans :=
  (List.range intvs.length).reverse.foldl connectCornersLayer intvs

/-! ### Bridges -/

/-- There is a track between the two indices whose guides reach over both tracks. -/
def hasGuideInterval (beginIdx endIdx trackIdx1 trackIdx2 : Int) (layer : Nat)
    (intvs : LayerSpans) : Bool :=
  (intvs.getD layer OrderedMap.empty).entries.any fun entry =>
    beginIdx ≤ entry.1 && entry.1 ≤ endIdx && entry.2.contains trackIdx1 &&
      entry.2.contains trackIdx2

structure BridgeGuide where
  trackIdx : Int
  intv : Span
  layerNum : Nat
  deriving DecidableEq

def BridgeGuide.init (trackIdx idx1 idx2 : Int) (layerNum : Nat) : BridgeGuide :=
  ⟨trackIdx, ⟨min idx1 idx2, max idx1 idx2, min_le_max⟩, layerNum⟩

/-- The bridge for two neighbouring tracks with guides over the same interval, on the upper layer
where there is one. -/
def bridgeOver (intvs : LayerSpans) (layer : Nat) (prev curr : Int) (intv : Span) :
    Except BridgeFault (Option BridgeGuide) :=
  let lower : Option Nat × Bool :=
    if 2 ≤ layer then
      (some (layer - 2), hasGuideInterval intv.lower intv.upper curr prev (layer - 2) intvs)
    else (none, false)
  let upper : Option Nat × Bool :=
    if layer + 2 < intvs.length ∧ lower.2 = false then
      (some (layer + 2), hasGuideInterval intv.lower intv.upper curr prev (layer + 2) intvs)
    else lower
  if upper.2 then .ok none
  else
    match upper.1 with
    | none => .error .noBridgeLayer
    | some bridgeLayer => .ok (some (.init intv.lower prev curr bridgeLayer))

/-- Guides over the same interval on neighbouring tracks, in the order of the loops. -/
structure Touching where
  layer : Nat
  prev : Int
  curr : Int
  intv : Span

def touchingOnLayer (layer : Nat) (tracks : TrackSpans) : List Touching :=
  (tracks.entries.zip tracks.entries.tail).flatMap fun (prev, curr) =>
    if curr.1 = prev.1 + 1 then
      (curr.2.inter prev.2).map fun intv => ⟨layer, prev.1, curr.1, intv⟩
    else []

def touching (intvs : LayerSpans) : List Touching :=
  (List.range intvs.length).flatMap fun layer =>
    touchingOnLayer layer (intvs.getD layer OrderedMap.empty)

/-- The second loop. -/
def bridgeGuides (intvs : LayerSpans) : List Touching → Except BridgeFault (List BridgeGuide)
  | [] => .ok []
  | t :: rest =>
      match bridgeOver intvs t.layer t.prev t.curr t.intv with
      | .error e => .error e
      | .ok bridge =>
          match bridgeGuides intvs rest with
          | .error e => .error e
          | .ok bridges => .ok (bridge.toList ++ bridges)

def insertBridges (intvs : LayerSpans) (bridges : List BridgeGuide) : LayerSpans :=
  bridges.foldl (fun intvs bridge => insertAt intvs bridge.layerNum bridge.trackIdx bridge.intv)
    intvs

def addTouchingGuidesBridges (intvs : LayerSpans) : Except BridgeFault LayerSpans :=
  let intvs := connectCorners intvs
  match bridgeGuides intvs (touching intvs) with
  | .error e => .error e
  | .ok bridges => .ok (insertBridges intvs bridges)

end OpenRoad.Drt
