import OpenRoad.DbGeometry
import OpenRoad.OrderedMap
import Mathlib.Algebra.GroupWithZero.Nat
import Mathlib.Data.List.Perm.Basic

/-!
The architect of scan chains: the cells of every clock domain go into a bucket, the number and the
length of the chains of a domain follow from its bits, and the chains are filled from the bucket,
the widest cells first.
-/

namespace OpenRoad.Dft

inductive ClockEdge where
  | rising
  | falling
  deriving DecidableEq

structure ClockDomain where
  clockName : String
  clockEdge : ClockEdge
  deriving DecidableEq

/-- The pins of a cell instance. -/
structure ITerm where
  inst : String
  mterm : String
  deriving DecidableEq

structure ScanCell where
  name : String
  bits : Nat
  clockDomain : ClockDomain
  origin : Db.Point
  isPlaced : Bool
  scanIn : ITerm
  scanOut : ITerm
  scanEnable : ITerm
  deriving DecidableEq

/-- A cell of one bit that is not placed. -/
def oneBitCell (name : String) : ScanCell :=
  ⟨name, 1, ⟨"clk", .rising⟩, ⟨0, 0⟩, false, ⟨name, "SI"⟩, ⟨name, "Q"⟩, ⟨name, "SE"⟩⟩

/-! ### Clock domains -/

def fnv1a (data : List UInt8) : UInt64 :=
  data.foldl (fun hash byte => (hash ^^^ byte.toUInt64) * 0x00000100000001b3) 0xcbf29ce484222325

/-- The bytes of the enumeration. -/
def ClockEdge.bytes : ClockEdge → List UInt8
  | rising => [0, 0, 0, 0]
  | falling => [1, 0, 0, 0]

def ClockDomain.getClockDomainId (domain : ClockDomain) : Nat :=
  (fnv1a domain.clockName.toUTF8.toList ^^^ fnv1a domain.clockEdge.bytes).toNat

inductive ClockMixing where
  | noMix
  | clockMix
  deriving DecidableEq

structure ScanArchitectConfig where
  clockMixing : ClockMixing
  maxLength : Option Nat
  maxChains : Option Nat

/-- `GetClockDomainHashFn` -/
def clockDomainHash (config : ScanArchitectConfig) (domain : ClockDomain) : Nat :=
  match config.clockMixing with
  | .noMix => domain.getClockDomainId
  | .clockMix => 1

/-! ### The buckets -/

def ClockEdge.toNat : ClockEdge → Nat
  | rising => 0
  | falling => 1

def compareScanCells (lhs rhs : ScanCell) : Bool :=
  if lhs.bits = rhs.bits then
    if lhs.clockDomain.clockName = rhs.clockDomain.clockName then
      lhs.clockDomain.clockEdge.toNat < rhs.clockDomain.clockEdge.toNat
    else lhs.clockDomain.clockName < rhs.clockDomain.clockName
  else lhs.bits < rhs.bits

/-- A stable sort: a cell stands before the cells that do not compare less than it. -/
def sortScanCells (cells : List ScanCell) : List ScanCell :=
  cells.insertionSort fun a b => compareScanCells b a = false

variable (config : ScanArchitectConfig)

def hashOf (cell : ScanCell) : Nat := clockDomainHash config cell.clockDomain

/-- `ScanCellsBucket::init`, for one hash domain. -/
def bucketOf (cells : List ScanCell) (hashDomain : Nat) : List ScanCell :=
  sortScanCells (cells.filter fun cell => hashOf config cell = hashDomain)

/-- The keys of the buckets, in the order of `hash_domain_to_limits_`. -/
def hashDomains (cells : List ScanCell) : List Nat :=
  OrderedSet.insertAll (· ≤ ·) (cells.map (hashOf config)) []

def totalBits (cells : List ScanCell) : Nat := (cells.map ScanCell.bits).sum

structure HashDomainLimits where
  chainCount : Nat
  maxLength : Nat
  deriving DecidableEq

/-- `inferChainCountFromMaxLength`, for one hash domain. -/
def inferLimits (bits maxLength : Nat) (maxChains : Option Nat) : HashDomainLimits :=
  let unbounded := if bits % maxLength ≠ 0 then bits / maxLength + 1 else bits / maxLength
  let domainChainCount :=
    match maxChains with
    | some maxChains => min unbounded maxChains
    | none => unbounded
  { chainCount := domainChainCount
    maxLength := if bits % domainChainCount = 0 then bits / domainChainCount
      else bits / domainChainCount + 1 }

/-- `inferChainCount`: without a length of the user it is 200. -/
def configLength : Nat := config.maxLength.getD 200

def limitsOf (cells : List ScanCell) (hashDomain : Nat) : HashDomainLimits :=
  inferLimits (totalBits (bucketOf config cells hashDomain)) (configLength config) config.maxChains

/-! ### The chains -/

structure ScanChain where
  name : String
  risingEdgeScanCells : List ScanCell
  fallingEdgeScanCells : List ScanCell
  scanCells : List ScanCell
  bits : Nat

namespace ScanChain

def new (name : String) : ScanChain := ⟨name, [], [], [], 0⟩

def add (chain : ScanChain) (cell : ScanCell) : ScanChain :=
  match cell.clockDomain.clockEdge with
  | .rising => { chain with
      bits := chain.bits + cell.bits
      risingEdgeScanCells := chain.risingEdgeScanCells ++ [cell] }
  | .falling => { chain with
      bits := chain.bits + cell.bits
      fallingEdgeScanCells := chain.fallingEdgeScanCells ++ [cell] }

end ScanChain

/-- `createScanChains`: the names count through all domains. -/
def createScanChains (limits : Nat → HashDomainLimits) : List Nat → Nat → List (Nat × List ScanChain)
  | [], _ => []
  | hashDomain :: rest, chainNumber =>
      let count := (limits hashDomain).chainCount
      (hashDomain, (List.range count).map fun i => ScanChain.new s!"chain_{chainNumber + i}") ::
        createScanChains limits rest (chainNumber + count)

/-- The loop that fills a chain; the cells are in the order in which `pop` takes them from the back
of the bucket. -/
def fill (maxLength : Nat) : List ScanCell → ScanChain → ScanChain × List ScanCell
  | [], chain => (chain, [])
  | cell :: rest, chain =>
      if chain.bits < maxLength then fill maxLength rest (chain.add cell) else (chain, cell :: rest)

/-! ### The order of the cells of a chain -/

/-- `nearest` of the spatial index: up to ten of the values, in the order of its iterator. -/
structure NearestQuery where
  query : Db.Point → List (Db.Point × Nat) → List (Db.Point × Nat)
  mem : ∀ point values value, value ∈ query point values → value ∈ values
  nodup : ∀ point values, values.Nodup → (query point values).Nodup
  length : ∀ point values, (query point values).length = min 10 values.length

/-- `DFT-10` -/
inductive ArchitectError where
  | tooManyOverlappingCells
  deriving DecidableEq

/-- The first cell with the least distance to the origin. -/
def startIndex (cells : List ScanCell) : Nat :=
  (cells.zipIdx.foldl (fun (best : Nat × Option Int) (cell : ScanCell × Nat) =>
    let dist := cell.1.origin.x + cell.1.origin.y
    match best.2 with
    | none => (cell.2, some dist)
    | some lowestDist => if dist < lowestDist then (cell.2, some dist) else best) (0, none)).1

/-- The walk from a cell to its nearest neighbour: the values that are visited. -/
def walk (Q : NearestQuery) : Nat → Db.Point × Nat → List (Db.Point × Nat) →
    Except ArchitectError (List (Db.Point × Nat))
  | 0, cursor, _ => .ok [cursor]
  | count + 1, cursor, rtree =>
      match (Q.query cursor.1 rtree).find? fun next => next.2 ≠ cursor.2 with
      | none => .error .tooManyOverlappingCells
      | some next => (walk Q count next (rtree.erase cursor)).map (cursor :: ·)

/-- `OptimizeScanWirelength` -/
def optimizeScanWirelength (Q : NearestQuery) (cells : List ScanCell) :
    Except ArchitectError (List ScanCell) :=
  if cells.isEmpty || cells.any fun cell => !cell.isPlaced then .ok cells
  else
    let transformed := cells.zipIdx.map fun cell => (cell.1.origin, cell.2)
    match transformed[startIndex cells]? with
    | none => .ok cells
    | some cursor =>
        (walk Q (cells.length - 1) cursor transformed).map fun visited =>
          visited.filterMap fun value => cells[value.2]?

/-- `sortScanCells` with the function of the heuristic. -/
def ScanChain.sort (Q : NearestQuery) (chain : ScanChain) : Except ArchitectError ScanChain := do
  let falling ← optimizeScanWirelength Q chain.fallingEdgeScanCells
  let rising ← optimizeScanWirelength Q chain.risingEdgeScanCells
  -- falling edge first
  return { chain with
    scanCells := falling ++ rising
    fallingEdgeScanCells := []
    risingEdgeScanCells := [] }

/-- The chains of a hash domain are filled in turn. -/
def architectDomain (Q : NearestQuery) (maxLength : Nat) :
    List ScanChain → List ScanCell → Except ArchitectError (List ScanChain)
  | [], _ => .ok []
  | chain :: chains, cells => do
      let filled := fill maxLength cells chain
      let sorted ← filled.1.sort Q
      let rest ← architectDomain Q maxLength chains filled.2
      return sorted :: rest

/-- `init` and `ScanArchitectHeuristic::architect`: the chains of every hash domain. -/
def architect (Q : NearestQuery) (cells : List ScanCell) :
    Except ArchitectError (List (Nat × List ScanChain)) :=
  (createScanChains (limitsOf config cells) (hashDomains config cells) 0).mapM fun entry => do
    let chains ← architectDomain Q (limitsOf config cells entry.1).maxLength entry.2
      (bucketOf config cells entry.1).reverse
    return (entry.1, chains)

end OpenRoad.Dft

/-!
The order of the cells of a chain: the walk to nearest neighbours always finds one, and what comes
out is a permutation of what went in.
-/

namespace OpenRoad.Dft

namespace NearestQuery

variable (Q : NearestQuery)

/-- Of two or more values one other than the cursor is found. -/
theorem find_isSome {rtree : List (Db.Point × Nat)} (hnodup : rtree.Nodup)
    (hindex : (rtree.map Prod.snd).Nodup) {cursor : Db.Point × Nat} (hcursor : cursor ∈ rtree)
    (hlength : 2 ≤ rtree.length) :
    ∃ next ∈ rtree, next ≠ cursor ∧
      (Q.query cursor.1 rtree).find? (fun next => next.2 ≠ cursor.2) = some next := by
  have hinj : ∀ value ∈ rtree, value.2 = cursor.2 → value = cursor := fun value hvalue heq =>
    List.inj_on_of_nodup_map hindex hvalue hcursor heq
  have hother : ∃ value ∈ Q.query cursor.1 rtree, value ≠ cursor := by
    by_contra hnone
    have hall : ∀ value ∈ Q.query cursor.1 rtree, value = cursor := fun value hvalue => by
      by_contra hne
      exact hnone ⟨value, hvalue, hne⟩
    have hone : (Q.query cursor.1 rtree).length ≤ 1 := by
      have hvalues := Q.nodup cursor.1 rtree hnodup
      rw [List.eq_replicate_of_mem hall] at hvalues
      exact List.nodup_replicate.mp hvalues
    rw [Q.length] at hone
    omega
  obtain ⟨value, hvalue, hne⟩ := hother
  cases hfind : (Q.query cursor.1 rtree).find? (fun next => next.2 ≠ cursor.2) with
  | none =>
      have hsame := List.find?_eq_none.mp hfind value hvalue
      rw [decide_eq_true_eq, not_not] at hsame
      exact absurd (hinj value (Q.mem _ _ _ hvalue) hsame) hne
  | some next =>
      have hnext := List.find?_some hfind
      rw [decide_eq_true_eq] at hnext
      refine ⟨next, Q.mem _ _ _ (List.mem_of_find?_eq_some hfind), fun heq => ?_, rfl⟩
      rw [heq] at hnext
      exact hnext rfl

end NearestQuery

/-- The walk visits every value once. -/
theorem walk_perm (Q : NearestQuery) {count : Nat} {cursor : Db.Point × Nat}
    {rtree : List (Db.Point × Nat)} (hindex : (rtree.map Prod.snd).Nodup) (hcursor : cursor ∈ rtree)
    (hlength : rtree.length = count + 1) :
    ∃ visited, walk Q count cursor rtree = .ok visited ∧ visited.Perm rtree := by
  induction count generalizing cursor rtree with
  | zero =>
      obtain ⟨value, rfl⟩ := List.length_eq_one_iff.mp hlength
      obtain rfl := List.mem_singleton.mp hcursor
      exact ⟨[cursor], rfl, List.Perm.refl _⟩
  | succ count ih =>
      have hnodup := List.Nodup.of_map Prod.snd hindex
      obtain ⟨next, hnext, hne, hfind⟩ := Q.find_isSome hnodup hindex hcursor (by omega)
      have hsub : (rtree.erase cursor).Sublist rtree := List.erase_sublist
      have hrest : (rtree.erase cursor).length = count + 1 := by
        rw [List.length_erase_of_mem hcursor, hlength]
        rfl
      obtain ⟨visited, hwalk, hperm⟩ := ih (hindex.sublist (hsub.map Prod.snd))
        ((List.mem_erase_of_ne hne).mpr hnext) hrest
      refine ⟨cursor :: visited, ?_, ?_⟩
      · unfold walk
        rw [hfind]
        show (walk Q count next (rtree.erase cursor)).map (cursor :: ·) = _
        rw [hwalk]
        rfl
      · exact (hperm.cons cursor).trans (List.perm_cons_erase hcursor).symm

/-- `OptimizeScanWirelength` never fails and keeps the cells. -/
theorem optimizeScanWirelength_perm (Q : NearestQuery) (cells : List ScanCell) :
    ∃ sorted, optimizeScanWirelength Q cells = .ok sorted ∧ sorted.Perm cells := by
  unfold optimizeScanWirelength
  split
  · exact ⟨cells, rfl, List.Perm.refl _⟩
  rename_i hrun
  dsimp only
  split
  · exact ⟨cells, rfl, List.Perm.refl _⟩
  rename_i cursor hcursor
  have hempty : cells ≠ [] := by
    rintro rfl
    exact hrun rfl
  have hindex : ((cells.zipIdx.map fun cell => (cell.1.origin, cell.2)).map Prod.snd).Nodup := by
    rw [List.map_map]
    show (cells.zipIdx.map Prod.snd).Nodup
    rw [List.zipIdx_map_snd]
    exact List.nodup_range'
  have hlength : (cells.zipIdx.map fun cell => (cell.1.origin, cell.2)).length =
      cells.length - 1 + 1 := by
    rw [List.length_map, List.length_zipIdx]
    have := List.length_pos_iff.mpr hempty
    omega
  obtain ⟨visited, hwalk, hperm⟩ := walk_perm Q hindex (List.mem_of_getElem? hcursor) hlength
  refine ⟨_, by rw [hwalk]; rfl, ?_⟩
  have hback : (cells.zipIdx.map fun cell => (cell.1.origin, cell.2)).filterMap
      (fun value => cells[value.2]?) = cells := by
    rw [List.filterMap_map]
    have hget : ∀ cell ∈ cells.zipIdx, cells[cell.2]? = some cell.1 := fun cell hcell =>
      List.mem_zipIdx_iff_getElem?.mp hcell
    calc cells.zipIdx.filterMap (fun cell => cells[cell.2]?)
        = cells.zipIdx.filterMap (fun cell => some cell.1) := List.filterMap_congr hget
      _ = cells.zipIdx.map Prod.fst := congrFun List.filterMap_eq_map _
      _ = cells := List.zipIdx_map_fst 0 cells
  have hsorted := hperm.filterMap fun value => cells[value.2]?
  rw [hback] at hsorted
  exact hsorted

end OpenRoad.Dft
