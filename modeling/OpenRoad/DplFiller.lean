import OpenRoad.DbGeometry
import Mathlib.Algebra.Order.Group.Int
import Mathlib.Data.List.Sort
import Mathlib.Data.List.Dedup
import Mathlib.Algebra.BigOperators.Group.List.Basic
import Mathlib.Tactic.Ring

/-!
Filler placement in one row. Each maximal run of empty valid sites is filled with masters of one
implant, taken greedily by decreasing width; what was chosen for a gap is kept for the next gap of
the same size.
-/

namespace OpenRoad.Dpl

open Db (Orient)

/-- What filler placement reads of a master: the layers of its obstructions, and whether these are
implant layers. -/
structure FillMaster where
  id : Nat
  width : Int
  obstructions : List (Nat × Bool)
  deriving DecidableEq

def getImplant (master : FillMaster) : Option Nat :=
  (master.obstructions.find? (·.2)).map (·.1)

/-- The cell of a pixel: the name and the master of its instance, if it has one. -/
structure FillCell where
  inst : Option (String × FillMaster)

/-- A pixel; the sites with their heights. -/
structure FillPixel where
  cell : Option FillCell
  isValid : Bool
  sites : List (Int × Orient)

/-- A row of the grid, with the left end of the core and the height of the row. -/
structure FillRow where
  row : Int
  coreXMin : Int
  y : Int
  siteWidth : Int
  rowSiteCount : Int
  pixel : Int → FillPixel

/-- Fillers by implant, widest first. -/
structure MasterByImplant where
  groups : List (Option Nat × List FillMaster)
  ne_nil : ∀ group ∈ groups, group.2 ≠ []
  sorted : ∀ group ∈ groups, group.2.Pairwise fun a b => b.width ≤ a.width

structure FillerInst where
  name : String
  master : FillMaster
  orient : Orient
  x : Int
  y : Int
  deriving DecidableEq

inductive FillError where
  /-- error 2 -/
  | couldNotFillGap (gap x y : Int) (left right : String)
  /-- error 50 -/
  | noFillersFound (implant : Nat)
  /-- a null pointer is followed -/
  | undefined
  | outOfFuel
  deriving DecidableEq

/-- `gap_fillers_`: the fillers chosen for each gap; none where nothing was chosen yet. -/
abbrev GapFillers := Option Nat → Int → List FillMaster

/-! ### The library -/

/-- `splitByImplant`, and the sort by width after it. -/
def splitByImplant (fillerMasters : List FillMaster) : MasterByImplant where
  groups := (fillerMasters.map getImplant).dedup.map fun implant =>
    (implant, (fillerMasters.filter fun master => getImplant master = implant).insertionSort
      fun a b => b.width ≤ a.width)
  ne_nil := by
    intro group hgroup
    obtain ⟨implant, himplant, rfl⟩ := List.mem_map.mp hgroup
    obtain ⟨master, hmaster, heq⟩ := List.mem_map.mp (List.mem_dedup.mp himplant)
    exact List.ne_nil_of_mem ((List.mem_insertionSort _).mpr
      (List.mem_filter.mpr ⟨hmaster, decide_eq_true heq⟩))
  sorted := by
    intro group hgroup
    obtain ⟨implant, -, rfl⟩ := List.mem_map.mp hgroup
    have : Std.Total fun a b : FillMaster => b.width ≤ a.width :=
      ⟨fun a b => le_total b.width a.width⟩
    have : IsTrans FillMaster fun a b => b.width ≤ a.width :=
      ⟨fun _ _ _ hab hbc => le_trans hbc hab⟩
    exact List.pairwise_insertionSort _ _

/-! ### The fillers of a gap -/

/-- The `while` loop of `gapFillers` for one master; `fuel` bounds how often it is taken. -/
def addFiller (haveFiller1 : Bool) (gap fillerWidth : Int) (master : FillMaster) :
    Nat → Int → List FillMaster → Int × List FillMaster
  | 0, width, fillers => (width, fillers)
  | fuel + 1, width, fillers =>
      if width + fillerWidth ≤ gap ∧ (haveFiller1 = true ∨ width + fillerWidth ≠ gap - 1) then
        if width + fillerWidth = gap then (gap, fillers ++ [master])
        else addFiller haveFiller1 gap fillerWidth master fuel (width + fillerWidth)
          (fillers ++ [master])
      else (width, fillers)

namespace FillRow

variable (R : FillRow)

/-- The `for` loop of `gapFillers`; no fillers where it comes to its end. -/
def chooseFillers (haveFiller1 : Bool) (gap : Int) :
    List FillMaster → Int → List FillMaster → List FillMaster
  | [], _, _ => []
  | master :: masters, width, fillers =>
      let next := addFiller haveFiller1 gap (master.width.tdiv R.siteWidth) master gap.toNat width
        fillers
      if next.1 = gap then next.2 else chooseFillers haveFiller1 gap masters next.1 next.2

def haveFiller1 (masters : List FillMaster) : Bool :=
  masters.getLast?.any fun smallest => smallest.width = R.siteWidth

/-- `gapFillers` -/
def gapFillers (lib : MasterByImplant) (cache : GapFillers) (implant : Option Nat) (gap : Int) :
    Except FillError (List FillMaster × GapFillers) :=
  match lib.groups.lookup implant with
  | none =>
      match implant with
      | none => .error .undefined
      | some layer => .error (.noFillersFound layer)
  | some masters =>
      if cache implant gap = [] then
        let fillers := R.chooseFillers (R.haveFiller1 masters) gap masters 0 []
        .ok (fillers, fun implant' gap' =>
          if implant' = implant ∧ gap' = gap then fillers else cache implant' gap')
      else .ok (cache implant gap, cache)

/-! ### The row -/

/-- A site that is to be filled. -/
def isEmpty (i : Int) : Bool := (R.pixel i).cell.isNone && (R.pixel i).isValid

/-- The orientation of the shortest site of a pixel. -/
def fillSite (pixel : FillPixel) : Orient :=
  (pixel.sites.foldl (fun selected site => if site.1 < selected.1 then site else selected)
    (2147483647, .R0)).2

/-- The first site from `k` on that is not to be filled, or the end of the row. -/
def runEnd : Nat → Int → Int
  | 0, k => k
  | fuel + 1, k => if k < R.rowSiteCount ∧ R.isEmpty k = true then runEnd fuel (k + 1) else k

/-- The implant of the cell at a site, if there is a cell with an instance. -/
def implantAt (i : Int) : Option Nat :=
  (R.pixel i).cell.bind fun cell => cell.inst.bind fun inst => getImplant inst.2

/-- The implant of the fillers between `j` and `k`; `none` where the library is empty. -/
def runImplant (lib : MasterByImplant) (j k : Int) : Option (Option Nat) :=
  if j > 0 then some (R.implantAt (j - 1))
  else if k < R.rowSiteCount then some (R.implantAt k)
  else lib.groups.head?.map (·.1)

/-- `gridInstName`; `none` where a null pointer is followed. -/
def gridInstName (col : Int) : Option String :=
  if col < 0 then some "core_left"
  else if col > R.rowSiteCount then some "core_right"
  else if col = R.rowSiteCount then none
  else match (R.pixel col).cell with
  | some cell => cell.inst.map (·.1)
  | none => some "?"

/-- The instances placed from site `k` on. -/
def placeFillers (instPrefix : String) (orient : Orient) : Int → List FillMaster → List FillerInst
  | _, [] => []
  | k, master :: masters =>
      { name := instPrefix ++ toString R.row ++ "_" ++ toString k
        master
        orient
        x := R.coreXMin + k * R.siteWidth
        y := R.y } :: placeFillers instPrefix orient (k + master.width.tdiv R.siteWidth) masters

/-- The loop of `placeRowFillers` over the sites from `j` on. -/
def fillFrom (instPrefix : String) (lib : MasterByImplant) :
    Nat → Int → GapFillers → Except FillError (List FillerInst × GapFillers)
  | 0, _, _ => .error .outOfFuel
  | fuel + 1, j, cache =>
      if R.rowSiteCount ≤ j then .ok ([], cache)
      else if !R.isEmpty j then fillFrom instPrefix lib fuel (j + 1) cache
      else
        let orient := fillSite (R.pixel j)
        let k := R.runEnd (R.rowSiteCount - j).toNat j
        match R.runImplant lib j k with
        | none => .error .undefined
        | some implant =>
            let gap := k - j
            match R.gapFillers lib cache implant gap with
            | .error e => .error e
            | .ok (fillers, cache) =>
                if fillers = [] then
                  match R.gridInstName (j - 1), R.gridInstName (k + 1) with
                  | some left, some right =>
                      .error (.couldNotFillGap gap (R.coreXMin + j * R.siteWidth) R.y left right)
                  | _, _ => .error .undefined
                else
                  (fillFrom instPrefix lib fuel (j + gap) cache).map fun rest =>
                    (R.placeFillers instPrefix orient j fillers ++ rest.1, rest.2)

/-- `placeRowFillers` -/
def placeRowFillers (instPrefix : String) (lib : MasterByImplant) (cache : GapFillers) :
    Except FillError (List FillerInst × GapFillers) :=
  R.fillFrom instPrefix lib (R.rowSiteCount.toNat + 1) 0 cache

end FillRow

end OpenRoad.Dpl

/-!
What is chosen for a gap. Taking one master as often as it fits leaves the remainder of the gap by
its width, or one width more where the remainder would be one site and there is no filler of one
site. The gap is filled exactly if nothing is left after the narrowest master.
-/

namespace OpenRoad.Dpl

/-- What is left of `rest` sites when a width is taken as often as it fits, but not down to one site
if there is no filler of one site. -/
def greedyStep (haveFiller1 : Bool) (rest width : Int) : Int :=
  if width ≤ rest then
    if haveFiller1 = true ∨ rest % width ≠ 1 then rest % width else width + 1
  else rest

/-- What is left when the widths are taken one after the other. -/
def greedyRest (haveFiller1 : Bool) (rest : Int) (widths : List Int) : Int :=
  widths.foldl (greedyStep haveFiller1) rest

theorem greedyStep_nonneg {haveFiller1 : Bool} {rest width : Int} (hrest : 0 ≤ rest)
    (hwidth : 0 < width) : 0 ≤ greedyStep haveFiller1 rest width := by
  unfold greedyStep
  split_ifs
  · exact Int.emod_nonneg _ hwidth.ne'
  · omega
  · exact hrest

theorem greedyRest_zero (haveFiller1 : Bool) {widths : List Int} (h : ∀ w ∈ widths, 0 < w) :
    greedyRest haveFiller1 0 widths = 0 := by
  induction widths with
  | nil => rfl
  | cons w widths ih =>
      have hw := h w List.mem_cons_self
      have hstep : greedyStep haveFiller1 0 w = 0 := if_neg (by omega)
      unfold greedyRest
      rw [List.foldl_cons, hstep]
      exact ih fun w' hw' => h w' (List.mem_cons_of_mem _ hw')

/-- One turn of the loop leaves what the rest of its turns leave. -/
theorem greedyStep_sub {haveFiller1 : Bool} {rest width : Int}
    (hle : width < rest) (hone : haveFiller1 = true ∨ rest - width ≠ 1) :
    greedyStep haveFiller1 (rest - width) width = greedyStep haveFiller1 rest width := by
  have hmod : (rest - width) % width = rest % width := Int.sub_emod_right rest width
  unfold greedyStep
  rw [if_pos hle.le, hmod]
  by_cases hagain : width ≤ rest - width
  · rw [if_pos hagain]
  · have hsmall : rest % width = rest - width := by
      rw [← hmod]
      exact Int.emod_eq_of_lt (by omega) (by omega)
    rw [if_neg hagain, hsmall, if_pos hone]

/-- Where the loop stops, nothing more is taken. -/
theorem greedyStep_stop {haveFiller1 : Bool} {rest width : Int}
    (hone : haveFiller1 = true ∨ 2 ≤ width)
    (hstop : ¬(width ≤ rest ∧ (haveFiller1 = true ∨ rest - width ≠ 1))) :
    greedyStep haveFiller1 rest width = rest := by
  unfold greedyStep
  by_cases hle : width ≤ rest
  · have hno : ¬haveFiller1 = true := fun h => hstop ⟨hle, Or.inl h⟩
    have hrest : rest - width = 1 := by
      by_contra h
      exact hstop ⟨hle, Or.inr h⟩
    have htwo := hone.resolve_left hno
    have hmod : rest % width = 1 := by
      rw [← Int.sub_emod_right, hrest]
      exact Int.emod_eq_of_lt (by omega) (by omega)
    rw [if_pos hle, if_neg (by rw [hmod]; simp [hno])]
    omega
  · exact if_neg hle

/-- The loop over one master takes it some number of times and leaves what `greedyStep` says. -/
theorem addFiller_spec {haveFiller1 : Bool} {gap fillerWidth : Int} (master : FillMaster)
    (hwidth : 0 < fillerWidth) (hone : haveFiller1 = true ∨ 2 ≤ fillerWidth) (fuel : Nat) :
    ∀ (width : Int) (fillers : List FillMaster), width < gap → gap - width ≤ fuel →
      ∃ n : Nat, addFiller haveFiller1 gap fillerWidth master fuel width fillers =
          (gap - greedyStep haveFiller1 (gap - width) fillerWidth,
            fillers ++ List.replicate n master) ∧
        width + n * fillerWidth = gap - greedyStep haveFiller1 (gap - width) fillerWidth := by
  induction fuel with
  | zero =>
      intro width fillers hlt hfuel
      omega
  | succ fuel ih =>
      intro width fillers hlt hfuel
      unfold addFiller
      by_cases htake : width + fillerWidth ≤ gap ∧
          (haveFiller1 = true ∨ width + fillerWidth ≠ gap - 1)
      · rw [if_pos htake]
        by_cases hfull : width + fillerWidth = gap
        · have hzero : greedyStep haveFiller1 (gap - width) fillerWidth = 0 := by
            unfold greedyStep
            rw [show gap - width = fillerWidth by omega, Int.emod_self, if_pos le_rfl,
              if_pos (Or.inr (by decide))]
          refine ⟨1, ?_, by rw [hzero]; omega⟩
          rw [if_pos hfull, hzero, Int.sub_zero]
          rfl
        · obtain ⟨n, heq, hsum⟩ := ih (width + fillerWidth) (fillers ++ [master]) (by omega)
            (by omega)
          have hrest : gap - (width + fillerWidth) = gap - width - fillerWidth := by omega
          have hstep := @greedyStep_sub haveFiller1 (gap - width) fillerWidth (by omega)
            (htake.2.imp_right fun h => by omega)
          rw [hrest, hstep] at heq hsum
          refine ⟨n + 1, ?_, ?_⟩
          · rw [if_neg hfull, heq, List.append_assoc]
            rfl
          · rw [← hsum]
            push_cast
            ring
      · have hstop := @greedyStep_stop haveFiller1 (gap - width) fillerWidth hone fun h =>
          htake ⟨by omega, h.2.imp_right fun h => by omega⟩
        refine ⟨0, ?_, by rw [hstop]; omega⟩
        rw [if_neg htake, hstop, List.replicate_zero, List.append_nil,
          show gap - (gap - width) = width by omega]

namespace FillRow

variable (R : FillRow)

/-- The sites a master is wide. -/
def sites (master : FillMaster) : Int := master.width.tdiv R.siteWidth

/-- The fillers chosen are masters of the implant that add up to what is left of the gap, or there
are none if `greedyRest` is not zero. -/
theorem chooseFillers_spec {haveFiller1 : Bool} {gap : Int} (masters : List FillMaster) :
    ∀ (width : Int) (fillers : List FillMaster), 0 ≤ width → width < gap →
      (∀ m ∈ masters, 0 < R.sites m ∧ (haveFiller1 = true ∨ 2 ≤ R.sites m)) →
      (greedyRest haveFiller1 (gap - width) (masters.map R.sites) = 0 →
        ∃ added, R.chooseFillers haveFiller1 gap masters width fillers = fillers ++ added ∧
          (∀ m ∈ added, m ∈ masters) ∧ (added.map R.sites).sum = gap - width) ∧
      (greedyRest haveFiller1 (gap - width) (masters.map R.sites) ≠ 0 →
        R.chooseFillers haveFiller1 gap masters width fillers = []) := by
  induction masters with
  | nil =>
      intro width fillers hnonneg hlt _
      refine ⟨fun h => ?_, fun _ => rfl⟩
      simp only [greedyRest, List.map_nil, List.foldl_nil] at h
      omega
  | cons master masters ih =>
      intro width fillers hnonneg hlt hmasters
      obtain ⟨hpos, hone⟩ := hmasters master List.mem_cons_self
      have hrest := fun m hm => hmasters m (List.mem_cons_of_mem _ hm)
      obtain ⟨n, heq, hsum⟩ := addFiller_spec master hpos hone gap.toNat width fillers hlt
        (by omega)
      have hstep_nonneg := @greedyStep_nonneg haveFiller1 (gap - width) _ (by omega) hpos
      have hgreedy : greedyRest haveFiller1 (gap - width) ((master :: masters).map R.sites) =
          greedyRest haveFiller1 (greedyStep haveFiller1 (gap - width) (R.sites master))
            (masters.map R.sites) := rfl
      have hcopies : ((List.replicate n master).map R.sites).sum = n * R.sites master := by
        rw [List.map_replicate, List.sum_replicate, nsmul_eq_mul]
      have hnext : R.chooseFillers haveFiller1 gap (master :: masters) width fillers =
          if gap - greedyStep haveFiller1 (gap - width) (R.sites master) = gap then
            fillers ++ List.replicate n master
          else R.chooseFillers haveFiller1 gap masters
            (gap - greedyStep haveFiller1 (gap - width) (R.sites master))
            (fillers ++ List.replicate n master) := by
        unfold sites at heq
        rw [chooseFillers, heq]
        rfl
      rw [hgreedy, hnext]
      set left := greedyStep haveFiller1 (gap - width) (R.sites master)
      by_cases hfull : left = 0
      · have hzero := @greedyRest_zero haveFiller1 (masters.map R.sites) fun w hw => by
          obtain ⟨m, hm, rfl⟩ := List.mem_map.mp hw
          exact (hrest m hm).1
        rw [hfull, if_pos (by omega)]
        refine ⟨fun _ => ⟨_, rfl, fun m hm => ?_, by rw [hcopies]; omega⟩, fun h => absurd hzero h⟩
        rw [(List.mem_replicate.mp hm).2]
        exact List.mem_cons_self
      · have hpositive : 0 ≤ gap - left := by
          have := Int.mul_nonneg (Int.natCast_nonneg n) hpos.le
          omega
        rw [if_neg (by omega)]
        obtain ⟨hfill, hempty⟩ := ih (gap - left) (fillers ++ List.replicate n master) hpositive
          (by omega) hrest
        rw [show gap - (gap - left) = left by omega] at hfill hempty
        refine ⟨fun h => ?_, hempty⟩
        obtain ⟨added, hadded, hmem, htotal⟩ := hfill h
        refine ⟨List.replicate n master ++ added, ?_, fun m hm => ?_, ?_⟩
        · rw [hadded, List.append_assoc]
        · rcases List.mem_append.mp hm with hm | hm
          · rw [(List.mem_replicate.mp hm).2]
            exact List.mem_cons_self
          · exact List.mem_cons_of_mem _ (hmem m hm)
        · rw [List.map_append, List.sum_append, hcopies, htotal]
          omega

end FillRow

end OpenRoad.Dpl
