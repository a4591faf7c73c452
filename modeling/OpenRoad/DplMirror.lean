import OpenRoad.DbBlock
import Mathlib.Algebra.BigOperators.Group.Finset.Basic
import Mathlib.Algebra.BigOperators.Ring.Finset
import Mathlib.Algebra.Order.BigOperators.Group.Finset
import Mathlib.Tactic.Linarith

/-!
`OptimizeMirroring`: instances are mirrored about the y axis one after the other, and mirrored back
where this made the nets at their pins longer. The boxes of the nets are kept with the nets, saved
before an instance is mirrored, and restored when it is mirrored back.
-/

namespace OpenRoad.Dpl

open Db (Point Rect Orient Transform PlacementStatus)

/-- A terminal of an instance: the boxes of the pins of its master terminal, and its net. -/
structure MirrorITerm where
  boxes : List Rect
  net : Option Nat

structure MirrorInst where
  /-- the placement boundary of the master -/
  boundary : Rect
  iterms : List MirrorITerm
  orient : Orient
  x : Int
  y : Int
  bbox : Rect
  status : PlacementStatus
  isCore : Bool

structure MirrorNet where
  isSupply : Bool
  isSpecial : Bool
  /-- the status and the box of each pin of its block terminals -/
  bpins : List (PlacementStatus × Rect)

structure MirrorDesign where
  instIds : List Nat
  inst : Nat → MirrorInst
  netIds : List Nat
  net : Nat → MirrorNet

/-! ### Instances -/

namespace MirrorInst

variable (inst : MirrorInst)

/-- The box of an instance as `setInstBBox` computes it. -/
def instBox : Rect := Transform.applyRect ⟨inst.orient, ⟨inst.x, inst.y⟩⟩ inst.boundary

/-- `dbInst::setOrient`; `none` where it raises an error. -/
def setOrient (orient : Orient) : Option MirrorInst :=
  if orient = inst.orient then some inst
  else if inst.status.isFixed then none
  else
    let inst := { inst with orient }
    some { inst with bbox := inst.instBox }

/-- `dbInst::setOrigin` -/
def setOrigin (x y : Int) : Option MirrorInst :=
  if inst.status.isPlaced ∧ inst.x = x ∧ inst.y = y then some inst
  else if inst.status.isFixed then none
  else
    let inst := { inst with x, y }
    some { inst with bbox := inst.instBox }

/-- `dbInst::setLocation` -/
def setLocation (x y : Int) : Option MirrorInst :=
  let bbox := Transform.applyRect ⟨inst.orient, ⟨0, 0⟩⟩ inst.boundary
  inst.setOrigin (x - bbox.xMin) (y - bbox.yMin)

/-- `dbInst::setLocationOrient`; the location is that of the stored box. -/
def setLocationOrient (orient : Orient) : Option MirrorInst :=
  let x := inst.bbox.xMin
  let y := inst.bbox.yMin
  (inst.setOrient orient).bind fun inst => inst.setLocation x y

/-- `dbITerm::getAvgXY`: the mean of the corners of the boxes, if there are any. -/
def getAvgXY (iterm : MirrorITerm) : Option Point :=
  let rects := iterm.boxes.map (Transform.applyRect ⟨inst.orient, ⟨inst.x, inst.y⟩⟩)
  let nn : Int := 2 * rects.length
  if nn = 0 then none
  else some ⟨(rects.map fun r : Rect => r.xMin + r.xMax).sum.tdiv nn,
    (rects.map fun r : Rect => r.yMin + r.yMax).sum.tdiv nn⟩

/-- Where a terminal is for the box of its net. -/
def termPoint (iterm : MirrorITerm) : Point :=
  match inst.getAvgXY iterm with
  | some p => p
  | none => ⟨(inst.bbox.xMin + inst.bbox.xMax).tdiv 2, (inst.bbox.yMin + inst.bbox.yMax).tdiv 2⟩

/-- The nets of the terminals that have one. -/
def nets : List Nat := inst.iterms.filterMap MirrorITerm.net

end MirrorInst

/-! ### Nets -/

/-- `Rect::mergeInit` -/
def mergeInit : Rect := ⟨2147483647, 2147483647, -2147483648, -2147483648⟩

/-- `Rect::merge` with the rectangle of one point. -/
def mergePoint (r : Rect) (p : Point) : Rect :=
  ⟨min r.xMin p.x, min r.yMin p.y, max r.xMax p.x, max r.yMax p.y⟩

namespace MirrorDesign

variable (D : MirrorDesign)

/-- The terminals of instances that are on a net. -/
def getITerms (n : Nat) : List (Nat × MirrorITerm) :=
  D.instIds.flatMap fun i => ((D.inst i).iterms.filter (·.net = some n)).map (i, ·)

/-- `dbNet::getTermBBox` -/
def getTermBBox (n : Nat) : Rect :=
  let iterms := (D.getITerms n).map fun t => (D.inst t.1).termPoint t.2
  let bpins := ((D.net n).bpins.filter (·.1.isPlaced)).map fun pin =>
    (⟨(pin.2.xMin + pin.2.xMax).tdiv 2, (pin.2.yMin + pin.2.yMax).tdiv 2⟩ : Point)
  (iterms ++ bpins).foldl mergePoint mergeInit

def setInst (i : Nat) (inst : MirrorInst) : MirrorDesign :=
  { D with inst := Function.update D.inst i inst }

end MirrorDesign

structure NetBox where
  box : Rect
  boxSaved : Rect
  ignore : Bool

namespace NetBox

def hpwl (b : NetBox) : Int := (b.box.yMax - b.box.yMin) + (b.box.xMax - b.box.xMin)

def saveBox (b : NetBox) : NetBox := { b with boxSaved := b.box }

def restoreBox (b : NetBox) : NetBox := { b with box := b.boxSaved }

end NetBox

/-! ### Mirroring -/

/-- The instances and the boxes of the nets. -/
structure OptimizeMirroring where
  design : MirrorDesign
  netBox : Nat → NetBox

/-- `findNetBoxes`; nets with more than 100 terminals of instances are ignored. -/
def findNetBoxes (D : MirrorDesign) : OptimizeMirroring where
  design := D
  netBox n :=
    { box := D.getTermBBox n
      boxSaved := ⟨0, 0, 0, 0⟩
      ignore := (D.net n).isSupply || (D.net n).isSpecial || decide ((D.getITerms n).length > 100) }

/-- The instance of a terminal may be mirrored, and the terminal is on the border of the box. -/
def isCandidate (D : MirrorDesign) (box : Rect) (t : Nat × MirrorITerm) : Bool :=
  (D.inst t.1).isCore && !(D.inst t.1).status.isFixed &&
    match (D.inst t.1).getAvgXY t.2 with
    | some p => p.x == box.xMin || p.x == box.xMax || p.y == box.yMin || p.y == box.yMax
    | none => false

/-- `findMirrorCandidates`, for the nets in the order in which they were sorted. -/
def findMirrorCandidates (M : OptimizeMirroring) (order : List Nat) : List Nat :=
  let insts := (order.filter fun n => !(M.netBox n).ignore).flatMap fun n =>
    ((M.design.getITerms n).filter (isCandidate M.design (M.netBox n).box)).map Prod.fst
  insts.foldl (fun existing i => if i ∈ existing then existing else existing ++ [i]) []

/-- The orientation mirrored about the y axis. -/
def orientMirrorY : Orient → Orient
  | .R0 => .MY
  | .MX => .R180
  | .MY => .R0
  | .R180 => .MX
  | .R90 => .MXR90
  | .MXR90 => .R90
  | .R270 => .MYR90
  | .MYR90 => .R270

/-- Change the boxes of the nets of a list in turn. -/
def eachNet (f : Nat → NetBox → NetBox) (netBox : Nat → NetBox) (ns : List Nat) : Nat → NetBox :=
  ns.foldl (fun netBox n => Function.update netBox n (f n (netBox n))) netBox

namespace OptimizeMirroring

variable (M : OptimizeMirroring) (i : Nat)

/-- The sum over the terminals of an instance. -/
def hpwl : Int :=
  (((M.design.inst i).nets.filter fun n => !(M.netBox n).ignore).map fun n => (M.netBox n).hpwl).sum

def updateNetBoxes : OptimizeMirroring :=
  let update (n : Nat) (b : NetBox) : NetBox :=
    if b.ignore then b else { b with box := M.design.getTermBBox n }
  { M with netBox := eachNet update M.netBox (M.design.inst i).nets }

def saveNetBoxes : OptimizeMirroring :=
  { M with netBox := eachNet (fun _ b => b.saveBox) M.netBox (M.design.inst i).nets }

def restoreNetBoxes : OptimizeMirroring :=
  { M with netBox := eachNet (fun _ b => b.restoreBox) M.netBox (M.design.inst i).nets }

def setLocationOrient (orient : Orient) : Option OptimizeMirroring :=
  ((M.design.inst i).setLocationOrient orient).map fun inst =>
    { M with design := M.design.setInst i inst }

/-- One pass of the loop of `mirrorCandidates`; whether the instance stays mirrored comes with the
state. -/
def mirrorCandidate : Option (Bool × OptimizeMirroring) :=
  let hpwlBefore := M.hpwl i
  let M := M.saveNetBoxes i
  let orient := (M.design.inst i).orient
  (M.setLocationOrient i (orientMirrorY orient)).bind fun M =>
    let M := M.updateNetBoxes i
    if M.hpwl i > hpwlBefore then
      (M.setLocationOrient i orient).map fun M => (false, M.restoreNetBoxes i)
    else some (true, M)

/-- `mirrorCandidates`, with the number of instances that are mirrored. -/
def mirrorCandidates (M : OptimizeMirroring) : List Nat → Option (Nat × OptimizeMirroring)
  | [] => some (0, M)
  | i :: is => (M.mirrorCandidate i).bind fun r =>
      (mirrorCandidates r.2 is).map fun s => (s.1 + if r.1 then 1 else 0, s.2)

end OptimizeMirroring

end OpenRoad.Dpl

/-!
Mirroring does not lengthen the nets when the pins of each instance are spread evenly over its nets:
the sum that is compared counts a net once for each of its pins on the instance. An instance that is
mirrored back is where it was if its stored box was that of its placement, and then the boxes of the
nets are always those of their terminals.
-/

namespace OpenRoad.Dpl

open Db (Point Rect Orient Transform PlacementStatus)

/-! ### Instances -/

namespace MirrorInst

variable {inst : MirrorInst} {o : Orient}

theorem instBox_min (inst : MirrorInst) :
    inst.instBox.xMin = (Transform.applyRect ⟨inst.orient, ⟨0, 0⟩⟩ inst.boundary).xMin + inst.x ∧
      inst.instBox.yMin = (Transform.applyRect ⟨inst.orient, ⟨0, 0⟩⟩ inst.boundary).yMin + inst.y := by
  rw [instBox]
  cases inst.orient <;>
    simp only [Transform.applyRect, Transform.applyPoint, Rect.init, Point.rotate90, Point.rotate180,
      Point.rotate270] <;>
    omega

/-- The instance in another orientation at the location of its stored box. -/
def moved (inst : MirrorInst) (o : Orient) : MirrorInst :=
  let bbox := Transform.applyRect ⟨o, ⟨0, 0⟩⟩ inst.boundary
  let inst := { inst with orient := o, x := inst.bbox.xMin - bbox.xMin, y := inst.bbox.yMin - bbox.yMin }
  { inst with bbox := inst.instBox }

theorem setLocationOrient_eq (hne : o ≠ inst.orient) (hfree : inst.status.isFixed = false) :
    inst.setLocationOrient o = some (inst.moved o) := by
  have hfixed : ¬inst.status.isFixed = true := by simp [hfree]
  dsimp only [setLocationOrient, setOrient]
  rw [if_neg hne, if_neg hfixed, Option.bind_some]
  dsimp only [setLocation, setOrigin]
  split_ifs with hsame
  · obtain ⟨-, hx, hy⟩ := hsame
    rw [moved, ← hx, ← hy]
  · rfl

/-- Where the stored box was that of the placement, the instance comes back. -/
theorem moved_moved (hbox : inst.bbox = inst.instBox) : (inst.moved o).moved inst.orient = inst := by
  have hmin := instBox_min inst
  have hmin' : (inst.moved o).bbox.xMin = inst.bbox.xMin ∧ (inst.moved o).bbox.yMin = inst.bbox.yMin := by
    have h := instBox_min { inst with
      orient := o
      x := inst.bbox.xMin - (Transform.applyRect ⟨o, ⟨0, 0⟩⟩ inst.boundary).xMin
      y := inst.bbox.yMin - (Transform.applyRect ⟨o, ⟨0, 0⟩⟩ inst.boundary).yMin }
    dsimp only at h
    exact ⟨h.1.trans (by omega), h.2.trans (by omega)⟩
  have hx : (inst.moved o).bbox.xMin -
      (Transform.applyRect ⟨inst.orient, ⟨0, 0⟩⟩ inst.boundary).xMin = inst.x := by
    rw [hmin'.1, hbox, hmin.1]
    omega
  have hy : (inst.moved o).bbox.yMin -
      (Transform.applyRect ⟨inst.orient, ⟨0, 0⟩⟩ inst.boundary).yMin = inst.y := by
    rw [hmin'.2, hbox, hmin.2]
    omega
  have hfold : (inst.moved o).moved inst.orient = { inst with
      x := (inst.moved o).bbox.xMin - (Transform.applyRect ⟨inst.orient, ⟨0, 0⟩⟩ inst.boundary).xMin
      y := (inst.moved o).bbox.yMin - (Transform.applyRect ⟨inst.orient, ⟨0, 0⟩⟩ inst.boundary).yMin
      bbox := instBox { inst with
        x := (inst.moved o).bbox.xMin - (Transform.applyRect ⟨inst.orient, ⟨0, 0⟩⟩ inst.boundary).xMin
        y := (inst.moved o).bbox.yMin -
          (Transform.applyRect ⟨inst.orient, ⟨0, 0⟩⟩ inst.boundary).yMin } } := rfl
  rw [hfold, hx, hy]
  change { inst with bbox := inst.instBox } = inst
  rw [← hbox]

end MirrorInst

theorem orientMirrorY_ne (o : Orient) : orientMirrorY o ≠ o := by
  cases o <;> decide

/-! ### Boxes -/

/-- Half the perimeter of a box. -/
def boxHpwl (r : Rect) : Int := (r.yMax - r.yMin) + (r.xMax - r.xMin)

/-- Changes that do nothing the second time are made once at each net of the list. -/
theorem eachNet_apply {f : Nat → NetBox → NetBox} (hf : ∀ n b, f n (f n b) = f n b)
    (netBox : Nat → NetBox) (ns : List Nat) (m : Nat) :
    eachNet f netBox ns m = if m ∈ ns then f m (netBox m) else netBox m := by
  induction ns generalizing netBox with
  | nil => rfl
  | cons n ns ih =>
      change eachNet f (Function.update netBox n (f n (netBox n))) ns m = _
      rw [ih]
      by_cases hmn : m = n
      · subst hmn
        rw [Function.update_self, hf, ite_self, if_pos List.mem_cons_self]
      · rw [Function.update_of_ne hmn]
        simp only [List.mem_cons, hmn, false_or]

namespace MirrorDesign

variable {D : MirrorDesign} {i n : Nat} {inst : MirrorInst}

/-- The terminals of a net stay when those of an instance do. -/
theorem getITerms_setInst (h : inst.iterms = (D.inst i).iterms) (n : Nat) :
    (D.setInst i inst).getITerms n = D.getITerms n := by
  have hiterms : ∀ j, ((D.setInst i inst).inst j).iterms = (D.inst j).iterms := by
    intro j
    change (Function.update D.inst i inst j).iterms = _
    by_cases hj : j = i
    · subst hj
      rw [Function.update_self, h]
    · rw [Function.update_of_ne hj]
  rw [getITerms, getITerms]
  simp only [hiterms]
  rfl

/-- The box of a net stays when an instance without a terminal on it is moved. -/
theorem getTermBBox_setInst (h : inst.iterms = (D.inst i).iterms) (hn : n ∉ (D.inst i).nets) :
    (D.setInst i inst).getTermBBox n = D.getTermBBox n := by
  have hpoints : ∀ t ∈ D.getITerms n,
      ((D.setInst i inst).inst t.1).termPoint t.2 = (D.inst t.1).termPoint t.2 := by
    intro t ht
    obtain ⟨j, -, ht⟩ := List.mem_flatMap.mp ht
    obtain ⟨iterm, hiterm, rfl⟩ := List.mem_map.mp ht
    obtain ⟨hiterm, hnet⟩ := List.mem_filter.mp hiterm
    have hji : j ≠ i := by
      rintro rfl
      exact hn (List.mem_filterMap.mpr ⟨iterm, hiterm, of_decide_eq_true hnet⟩)
    change (Function.update D.inst i inst j).termPoint iterm = _
    rw [Function.update_of_ne hji]
  rw [getTermBBox, getTermBBox, getITerms_setInst h, List.map_congr_left hpoints]
  rfl

/-- Instances have their terminals on nets of the design. -/
def Ok (D : MirrorDesign) : Prop := ∀ i ∈ D.instIds, ∀ n ∈ (D.inst i).nets, n ∈ D.netIds

instance (D : MirrorDesign) : Decidable D.Ok :=
  inferInstanceAs (Decidable (∀ i ∈ D.instIds, ∀ n ∈ (D.inst i).nets, _))

end MirrorDesign

/-- A list with the same number of each of its elements. -/
theorem sum_map_even {L : List Nat} (heven : ∀ n ∈ L, ∀ m ∈ L, L.count n = L.count m) :
    ∃ k : Nat, 0 < k ∧ ∀ w : Nat → Int, (L.map w).sum = k * ∑ n ∈ L.toFinset, w n := by
  cases L with
  | nil => exact ⟨1, Nat.one_pos, fun w => rfl⟩
  | cons a L =>
      refine ⟨(a :: L).count a, List.count_pos_iff.mpr List.mem_cons_self, fun w => ?_⟩
      rw [Finset.sum_list_map_count, Finset.mul_sum]
      refine Finset.sum_congr rfl fun n hn => ?_
      rw [heven n (List.mem_toFinset.mp hn) a List.mem_cons_self, nsmul_eq_mul]

namespace OptimizeMirroring

variable (M : OptimizeMirroring) (i : Nat)

/-- The nets that are not ignored. -/
def openNets : Finset Nat := M.design.netIds.toFinset.filter fun n => (M.netBox n).ignore = false

/-- The sum over all nets that are not ignored, for their actual terminals. -/
def totalHpwl : Int := ∑ n ∈ M.openNets, boxHpwl (M.design.getTermBBox n)

/-- The boxes kept are those of the terminals. -/
def Cached : Prop := ∀ n ∈ M.openNets, (M.netBox n).box = M.design.getTermBBox n

/-- The nets of an instance that are not ignored, once for each of its terminals. -/
def instNets : List Nat := (M.design.inst i).nets.filter fun n => !(M.netBox n).ignore

/-- Each net of the instance that is not ignored has the same number of its terminals. -/
def EvenPins : Prop := ∀ n ∈ M.instNets i, ∀ m ∈ M.instNets i, (M.instNets i).count n = (M.instNets i).count m

instance : Decidable (M.EvenPins i) :=
  inferInstanceAs (Decidable (∀ n ∈ M.instNets i, ∀ m ∈ M.instNets i, _))

/-- What is asked of an instance that is to be mirrored. -/
structure Ready : Prop where
  mem : i ∈ M.design.instIds
  free : (M.design.inst i).status.isFixed = false
  bbox : (M.design.inst i).bbox = (M.design.inst i).instBox
  even : M.EvenPins i

/-- What mirroring one instance leaves as it was. -/
structure SameNets (M M' : OptimizeMirroring) : Prop where
  ids : M'.design.instIds = M.design.instIds ∧ M'.design.netIds = M.design.netIds
  ignore : ∀ n, (M'.netBox n).ignore = (M.netBox n).ignore
  iterms : ∀ i, (M'.design.inst i).iterms = (M.design.inst i).iterms
  status : ∀ i, (M'.design.inst i).status = (M.design.inst i).status
  bbox : ∀ i, (M.design.inst i).bbox = (M.design.inst i).instBox →
    (M'.design.inst i).bbox = (M'.design.inst i).instBox

variable {M M' : OptimizeMirroring} {i} {n : Nat}

theorem mem_openNets : n ∈ M.openNets ↔ n ∈ M.design.netIds ∧ (M.netBox n).ignore = false := by
  rw [openNets, Finset.mem_filter, List.mem_toFinset]

theorem mem_instNets : n ∈ M.instNets i ↔ n ∈ (M.design.inst i).nets ∧ (M.netBox n).ignore = false := by
  rw [instNets, List.mem_filter, Bool.not_eq_true']

namespace SameNets

variable (h : SameNets M M')

include h

theorem openNets : M'.openNets = M.openNets := by
  ext n
  rw [mem_openNets, mem_openNets, h.ids.2, h.ignore]

theorem nets (i : Nat) : (M'.design.inst i).nets = (M.design.inst i).nets := by
  rw [MirrorInst.nets, MirrorInst.nets, h.iterms]

theorem instNets (i : Nat) : M'.instNets i = M.instNets i := by
  rw [OptimizeMirroring.instNets, OptimizeMirroring.instNets, h.nets]
  exact List.filter_congr fun n _ => by rw [h.ignore]

theorem ok (hok : M.design.Ok) : M'.design.Ok := by
  intro i hi n hn
  rw [h.ids.1] at hi
  rw [h.nets] at hn
  rw [h.ids.2]
  exact hok i hi n hn

theorem ready (hi : M.Ready i) : M'.Ready i where
  mem := h.ids.1 ▸ hi.mem
  free := (congrArg PlacementStatus.isFixed (h.status i)).trans hi.free
  bbox := h.bbox i hi.bbox
  even := by
    rw [EvenPins, h.instNets]
    exact hi.even

end SameNets

/-- Where the boxes are right, the sum that is compared counts a net once for each terminal. -/
theorem hpwl_eq (hok : M.design.Ok) (hi : i ∈ M.design.instIds) (hcached : M.Cached) :
    M.hpwl i = ((M.instNets i).map fun n => boxHpwl (M.design.getTermBBox n)).sum := by
  have hmap : ∀ n ∈ M.instNets i, (M.netBox n).hpwl = boxHpwl (M.design.getTermBBox n) := by
    intro n hn
    obtain ⟨hnet, hopen⟩ := mem_instNets.mp hn
    rw [← hcached n (mem_openNets.mpr ⟨hok i hi n hnet, hopen⟩)]
    rfl
  exact congrArg List.sum (List.map_congr_left hmap)

/-- Where the terminals are even and the sum that is compared does not grow, the whole sum does not. -/
theorem total_le_of_hpwl (hok : M.design.Ok) (hi : i ∈ M.design.instIds) (heven : M.EvenPins i)
    (hcached : M.Cached) (hcached' : M'.Cached) (hsame : SameNets M M')
    (hother : ∀ n, n ∉ (M.design.inst i).nets → M'.design.getTermBBox n = M.design.getTermBBox n)
    (hle : M'.hpwl i ≤ M.hpwl i) : M'.totalHpwl ≤ M.totalHpwl := by
  obtain ⟨k, hk, hsum⟩ := sum_map_even heven
  have hsub : (M.instNets i).toFinset ⊆ M.openNets := by
    intro n hn
    obtain ⟨hnet, hopen⟩ := mem_instNets.mp (List.mem_toFinset.mp hn)
    exact mem_openNets.mpr ⟨hok i hi n hnet, hopen⟩
  have hrest : ∀ n ∈ M.openNets \ (M.instNets i).toFinset,
      boxHpwl (M'.design.getTermBBox n) = boxHpwl (M.design.getTermBBox n) := by
    intro n hn
    obtain ⟨hopen, hnot⟩ := Finset.mem_sdiff.mp hn
    rw [hother n fun hnet => hnot (List.mem_toFinset.mpr (mem_instNets.mpr
      ⟨hnet, (mem_openNets.mp hopen).2⟩))]
  rw [hpwl_eq hok hi hcached, hpwl_eq (hsame.ok hok) (hsame.ids.1 ▸ hi) hcached', hsame.instNets,
    hsum, hsum] at hle
  have hle' := le_of_mul_le_mul_left hle (by exact_mod_cast hk)
  rw [totalHpwl, totalHpwl, hsame.openNets, ← Finset.sum_sdiff hsub, ← Finset.sum_sdiff hsub,
    Finset.sum_congr rfl hrest]
  exact add_le_add_right hle' _

/-! ### One instance -/

theorem saveNetBoxes_netBox : (M.saveNetBoxes i).netBox n =
    if n ∈ (M.design.inst i).nets then (M.netBox n).saveBox else M.netBox n :=
  eachNet_apply (f := fun _ b => b.saveBox) (fun _ _ => rfl) _ _ n

theorem restoreNetBoxes_netBox : (M.restoreNetBoxes i).netBox n =
    if n ∈ (M.design.inst i).nets then (M.netBox n).restoreBox else M.netBox n :=
  eachNet_apply (f := fun _ b => b.restoreBox) (fun _ _ => rfl) _ _ n

theorem updateNetBoxes_netBox : (M.updateNetBoxes i).netBox n =
    if n ∈ (M.design.inst i).nets ∧ (M.netBox n).ignore = false then
      { M.netBox n with box := M.design.getTermBBox n } else M.netBox n := by
  refine (eachNet_apply
    (f := fun n b => if b.ignore then b else { b with box := M.design.getTermBBox n })
    (fun n b => ?_) _ _ n).trans ?_
  · cases hb : b.ignore with
    | true => simp [hb]
    | false => simp [hb]
  · cases hb : (M.netBox n).ignore with
    | true => simp [hb]
    | false => simp [hb]

/-- The state with an instance in another orientation and the boxes of its nets saved and updated. -/
def mirrored (M : OptimizeMirroring) (i : Nat) (o : Orient) : OptimizeMirroring :=
  { M.saveNetBoxes i with
    design := M.design.setInst i ((M.design.inst i).moved o) }.updateNetBoxes i

theorem mirrored_inst (M : OptimizeMirroring) (i : Nat) (o : Orient) (j : Nat) :
    (M.mirrored i o).design.inst j =
      if j = i then (M.design.inst i).moved o else M.design.inst j := by
  change Function.update M.design.inst i _ j = _
  split_ifs with hj
  · rw [hj, Function.update_self]
  · exact Function.update_of_ne hj _ _

theorem mirrored_nets (M : OptimizeMirroring) (i : Nat) (o : Orient) :
    ((M.mirrored i o).design.inst i).nets = (M.design.inst i).nets := by
  rw [mirrored_inst, if_pos rfl]
  rfl

theorem mirrored_netBox (M : OptimizeMirroring) (i : Nat) (o : Orient) (n : Nat) :
    (M.mirrored i o).netBox n =
      if n ∈ (M.design.inst i).nets then
        if (M.netBox n).ignore then (M.netBox n).saveBox
        else { (M.netBox n).saveBox with box := (M.mirrored i o).design.getTermBBox n }
      else M.netBox n := by
  rw [mirrored, updateNetBoxes_netBox]
  change (if n ∈ ((M.mirrored i o).design.inst i).nets ∧ ((M.saveNetBoxes i).netBox n).ignore = false then
    { (M.saveNetBoxes i).netBox n with box := (M.mirrored i o).design.getTermBBox n }
    else (M.saveNetBoxes i).netBox n) = _
  rw [mirrored_nets, saveNetBoxes_netBox]
  by_cases hnet : n ∈ (M.design.inst i).nets
  · rw [if_pos hnet, if_pos hnet]
    cases hignore : (M.netBox n).ignore with
    | true => rw [if_neg fun hall => absurd (hignore.symm.trans hall.2) (by decide), if_pos rfl]
    | false =>
        rw [if_pos ⟨hnet, hignore⟩, if_neg Bool.false_ne_true]
        rfl
  · rw [if_neg hnet, if_neg hnet, if_neg fun hall => hnet hall.1]

theorem sameNets_mirrored (M : OptimizeMirroring) (i : Nat) (o : Orient) : SameNets M (M.mirrored i o) where
  ids := ⟨rfl, rfl⟩
  ignore n := by
    rw [mirrored_netBox]
    split_ifs
    · rfl
    · rfl
    · rfl
  iterms j := by
    rw [mirrored_inst]
    split_ifs with hj
    · rw [hj]
      rfl
    · rfl
  status j := by
    rw [mirrored_inst]
    split_ifs with hj
    · rw [hj]
      rfl
    · rfl
  bbox j hj := by
    rw [mirrored_inst]
    split_ifs
    · rfl
    · exact hj

theorem mirrored_getTermBBox {o : Orient} (hn : n ∉ (M.design.inst i).nets) :
    (M.mirrored i o).design.getTermBBox n = M.design.getTermBBox n :=
  MirrorDesign.getTermBBox_setInst rfl hn

theorem cached_mirrored {o : Orient} (hcached : M.Cached) : (M.mirrored i o).Cached := by
  intro n hn
  rw [(sameNets_mirrored M i o).openNets] at hn
  rw [mirrored_netBox]
  split_ifs with hnet hignore
  · exact absurd ((mem_openNets.mp hn).2.symm.trans hignore) (by decide)
  · rfl
  · rw [mirrored_getTermBBox hnet]
    exact hcached n hn

theorem setLocationOrient_save {o : Orient} (hne : o ≠ (M.design.inst i).orient)
    (hfree : (M.design.inst i).status.isFixed = false) :
    ((M.saveNetBoxes i).setLocationOrient i o).map (·.updateNetBoxes i) = some (M.mirrored i o) := by
  rw [setLocationOrient]
  change (((M.design.inst i).setLocationOrient o).map _).map _ = _
  rw [MirrorInst.setLocationOrient_eq hne hfree]
  rfl

/-- When the instance goes back, so do the boxes of its nets. -/
theorem setLocationOrient_back {o : Orient} (hne : o ≠ (M.design.inst i).orient)
    (hfree : (M.design.inst i).status.isFixed = false)
    (hbbox : (M.design.inst i).bbox = (M.design.inst i).instBox) :
    ((M.mirrored i o).setLocationOrient i (M.design.inst i).orient).map (·.restoreNetBoxes i) =
      some (M.saveNetBoxes i) := by
  have hinst : (M.mirrored i o).design.inst i = (M.design.inst i).moved o := by
    rw [mirrored_inst, if_pos rfl]
  have hdesign : (M.mirrored i o).design.setInst i (M.design.inst i) = M.design := by
    change (M.design.setInst i ((M.design.inst i).moved o)).setInst i (M.design.inst i) = M.design
    rw [MirrorDesign.setInst, MirrorDesign.setInst]
    dsimp only
    rw [Function.update_idem, Function.update_eq_self]
  have hset : (M.mirrored i o).setLocationOrient i (M.design.inst i).orient =
      some { M.mirrored i o with design := M.design } := by
    rw [setLocationOrient, hinst, MirrorInst.setLocationOrient_eq (by exact hne.symm) (by exact hfree),
      MirrorInst.moved_moved hbbox, Option.map_some, hdesign]
  have hboxes : ({ M.mirrored i o with design := M.design } : OptimizeMirroring).restoreNetBoxes i =
      M.saveNetBoxes i := by
    have hnetBox : ∀ n, (({ M.mirrored i o with
        design := M.design } : OptimizeMirroring).restoreNetBoxes i).netBox n =
          (M.saveNetBoxes i).netBox n := by
      intro n
      rw [restoreNetBoxes_netBox, saveNetBoxes_netBox]
      change (if n ∈ (M.design.inst i).nets then ((M.mirrored i o).netBox n).restoreBox
        else (M.mirrored i o).netBox n) = _
      rw [mirrored_netBox]
      split_ifs
      · rfl
      · rfl
      · rfl
    exact congrArg (OptimizeMirroring.mk M.design) (funext hnetBox)
  rw [hset, Option.map_some, hboxes]

theorem sameNets_save (M : OptimizeMirroring) (i : Nat) : SameNets M (M.saveNetBoxes i) where
  ids := ⟨rfl, rfl⟩
  ignore n := by
    rw [saveNetBoxes_netBox]
    split_ifs
    · rfl
    · rfl
  iterms _ := rfl
  status _ := rfl
  bbox _ := id

theorem cached_save (hcached : M.Cached) : (M.saveNetBoxes i).Cached := by
  intro n hn
  rw [(sameNets_save M i).openNets] at hn
  rw [saveNetBoxes_netBox]
  split_ifs
  · exact hcached n hn
  · exact hcached n hn

/-- Mirroring an instance keeps the boxes right and does not lengthen the nets. -/
theorem mirrorCandidate_spec (hok : M.design.Ok) (hready : M.Ready i) (hcached : M.Cached) :
    ∃ r, M.mirrorCandidate i = some r ∧ r.2.Cached ∧ r.2.totalHpwl ≤ M.totalHpwl ∧ SameNets M r.2 := by
  have hne := orientMirrorY_ne (M.design.inst i).orient
  obtain ⟨M₁, hset, hupdate⟩ := Option.map_eq_some_iff.mp (setLocationOrient_save hne hready.free)
  obtain ⟨M₂, hback, hrestore⟩ :=
    Option.map_eq_some_iff.mp (setLocationOrient_back hne hready.free hready.bbox)
  have hrun : M.mirrorCandidate i = ((M.saveNetBoxes i).setLocationOrient i
      (orientMirrorY (M.design.inst i).orient)).bind fun M₁ =>
        if (M₁.updateNetBoxes i).hpwl i > M.hpwl i then
          ((M₁.updateNetBoxes i).setLocationOrient i (M.design.inst i).orient).map fun M =>
            (false, M.restoreNetBoxes i)
        else some (true, M₁.updateNetBoxes i) := rfl
  rw [hrun, hset, Option.bind_some, hupdate]
  split_ifs with hworse
  · rw [hback, Option.map_some, hrestore]
    refine ⟨_, rfl, cached_save hcached, le_of_eq ?_, sameNets_save M i⟩
    rw [totalHpwl, (sameNets_save M i).openNets]
    rfl
  · have hcached' := cached_mirrored (i := i) (o := orientMirrorY (M.design.inst i).orient) hcached
    refine ⟨_, rfl, hcached', ?_, sameNets_mirrored M i _⟩
    exact total_le_of_hpwl hok hready.mem hready.even hcached hcached' (sameNets_mirrored M i _)
      (fun n hn => mirrored_getTermBBox hn) (not_lt.mp hworse)

/-! ### All instances -/

theorem mirrorCandidates_spec (is : List Nat) (hok : M.design.Ok) (hready : ∀ i ∈ is, M.Ready i)
    (hcached : M.Cached) :
    ∃ r, M.mirrorCandidates is = some r ∧ r.2.Cached ∧ r.2.totalHpwl ≤ M.totalHpwl := by
  induction is generalizing M with
  | nil => exact ⟨_, rfl, hcached, le_refl _⟩
  | cons i is ih =>
      obtain ⟨r, hr, hcached', hle, hsame⟩ := mirrorCandidate_spec hok (hready i List.mem_cons_self) hcached
      obtain ⟨s, hs, hcached'', hle'⟩ := ih (hsame.ok hok)
        (fun j hj => hsame.ready (hready j (List.mem_cons_of_mem _ hj))) hcached'
      refine ⟨(s.1 + if r.1 then 1 else 0, s.2), ?_, hcached'', hle'.trans hle⟩
      rw [mirrorCandidates, hr, Option.bind_some, hs]
      rfl

theorem cached_findNetBoxes (D : MirrorDesign) : (findNetBoxes D).Cached := fun _ _ => rfl

/-- The instances that are found may be moved. -/
theorem mem_findMirrorCandidates {order : List Nat} (hi : i ∈ findMirrorCandidates M order) :
    i ∈ M.design.instIds ∧ (M.design.inst i).status.isFixed = false := by
  have hfold : ∀ (insts existing : List Nat), i ∈ insts.foldl
      (fun existing i => if i ∈ existing then existing else existing ++ [i]) existing →
        i ∈ existing ∨ i ∈ insts := by
    intro insts
    induction insts with
    | nil => exact fun existing h => Or.inl h
    | cons j insts ih =>
        intro existing h
        rcases ih _ h with h | h
        · dsimp only at h
          split_ifs at h
          · exact Or.inl h
          · rcases List.mem_append.mp h with h | h
            · exact Or.inl h
            · exact Or.inr (List.mem_cons.mpr (Or.inl (List.mem_singleton.mp h)))
        · exact Or.inr (List.mem_cons_of_mem _ h)
  have hin := (hfold _ _ hi).resolve_left List.not_mem_nil
  obtain ⟨n, -, hin⟩ := List.mem_flatMap.mp hin
  obtain ⟨t, ht, rfl⟩ := List.mem_map.mp hin
  obtain ⟨ht, hcandidate⟩ := List.mem_filter.mp ht
  obtain ⟨j, hj, ht⟩ := List.mem_flatMap.mp ht
  obtain ⟨iterm, -, rfl⟩ := List.mem_map.mp ht
  rw [isCandidate, Bool.and_eq_true, Bool.and_eq_true, Bool.not_eq_true'] at hcandidate
  exact ⟨hj, hcandidate.1.2⟩

/-- `mirrorCandidates` on the candidates it is given returns, and where each of them has its stored box
in place and even terminals, the nets are not longer afterwards and the boxes kept are right. -/
theorem mirrorCandidates_total_le (D : MirrorDesign) (hD : D.Ok) (order : List Nat)
    (hready : ∀ i ∈ findMirrorCandidates (findNetBoxes D) order,
      (D.inst i).bbox = (D.inst i).instBox ∧ (findNetBoxes D).EvenPins i) :
    ∃ r, (findNetBoxes D).mirrorCandidates (findMirrorCandidates (findNetBoxes D) order) = some r ∧
      r.2.totalHpwl ≤ (findNetBoxes D).totalHpwl ∧ r.2.Cached := by
  obtain ⟨r, hr, hcached, hle⟩ := mirrorCandidates_spec _ hD (fun i hi =>
    ⟨(mem_findMirrorCandidates hi).1, (mem_findMirrorCandidates hi).2, (hready i hi).1, (hready i hi).2⟩)
    (cached_findNetBoxes D)
  exact ⟨r, hr, hle, hcached⟩

/-- One instance with these terminals, and two nets with a pin of the block to the right of it. -/
def pinDesign (iterms : List MirrorITerm) : MirrorDesign where
  instIds := [0]
  inst _ :=
    { boundary := ⟨0, 0, 10, 10⟩
      iterms
      orient := .R0
      x := 0
      y := 0
      bbox := ⟨0, 0, 10, 10⟩
      status := .PLACED
      isCore := true }
  netIds := [0, 1]
  net _ := ⟨false, false, [(.PLACED, ⟨20, 0, 20, 0⟩)]⟩

theorem mirrorCandidates_total_le_one_pin : ∃ r,
    (findNetBoxes (pinDesign [⟨[⟨4, 4, 4, 4⟩], some 0⟩, ⟨[⟨7, 7, 7, 7⟩], some 1⟩])).mirrorCandidates
        (findMirrorCandidates
          (findNetBoxes (pinDesign [⟨[⟨4, 4, 4, 4⟩], some 0⟩, ⟨[⟨7, 7, 7, 7⟩], some 1⟩])) [0, 1]) = some r ∧
      r.2.totalHpwl ≤
        (findNetBoxes (pinDesign [⟨[⟨4, 4, 4, 4⟩], some 0⟩, ⟨[⟨7, 7, 7, 7⟩], some 1⟩])).totalHpwl ∧
      r.2.Cached :=
  mirrorCandidates_total_le _ (by decide) [0, 1] (by decide)

/-- With two pins on the net that becomes 2 shorter, and one on the net that becomes 4 longer, the
instance stays mirrored. -/
theorem not_mirrorCandidates_total_le : ∃ r,
    (findNetBoxes (pinDesign [⟨[⟨4, 4, 4, 4⟩], some 0⟩, ⟨[⟨4, 4, 4, 4⟩], some 0⟩,
      ⟨[⟨7, 7, 7, 7⟩], some 1⟩])).mirrorCandidates
        (findMirrorCandidates (findNetBoxes (pinDesign [⟨[⟨4, 4, 4, 4⟩], some 0⟩,
          ⟨[⟨4, 4, 4, 4⟩], some 0⟩, ⟨[⟨7, 7, 7, 7⟩], some 1⟩])) [0, 1]) = some r ∧
      (findNetBoxes (pinDesign [⟨[⟨4, 4, 4, 4⟩], some 0⟩, ⟨[⟨4, 4, 4, 4⟩], some 0⟩,
        ⟨[⟨7, 7, 7, 7⟩], some 1⟩])).totalHpwl < r.2.totalHpwl :=
  ⟨_, rfl, by decide⟩

end OptimizeMirroring

end OpenRoad.Dpl
