import Mathlib.Algebra.Order.BigOperators.Group.List
import Mathlib.Data.Int.ConditionallyCompleteOrder
import Mathlib.Tactic.Linarith
import Mathlib.Tactic.Ring
import OpenRoad.IfpRow
import OpenRoad.MplAnnealing
import OpenRoad.Run

/-!
The rows of hybrid sites: the sites of the row pattern of the base site are stacked from the bottom of
the core, and the rows of another hybrid site start where its pattern occurs in the base pattern.
-/

namespace OpenRoad.Ifp

open Db (Orient Rect)
open Run

def flipped (pattern : RowPattern) : RowPattern :=
  pattern.reverse.map fun s => ⟨s.site, Mpl.flipX s.orientation⟩

section

variable (sites : Nat → Site) (base : Nat)

def height (s : OrientedSite) : Int := (sites s.site).height

/-- `match_pattern`: the heights below the first site of the base pattern that the pattern starts with,
if all of the pattern matches from there. -/
def matchPattern (pattern : RowPattern) : Option Int :=
  let basePattern := (sites base).rowPattern
  match pattern with
  | [] => none
  | first :: _ =>
      (basePattern.findIdx? (· = first)).bind fun pos =>
        if (pattern.zipIdx pos).all fun e => basePattern[e.2 % basePattern.length]? = some e.1 then
          some ((basePattern.take pos).map (height sites)).sum
        else none

/-- The offset of the rows of a site and their orientation; a site that does not match is an error. -/
def getOffset (site : Nat) : Option (Int × Orient) :=
  let searchPattern := (sites site).rowPattern
  match matchPattern sites base searchPattern with
  | some offset => some (offset, .R0)
  | none => (matchPattern sites base (flipped searchPattern)).map fun offset => (offset, .MX)

/-- The rows from `y` up that fit in the core, the next of the site that `pick` gives. -/
def createRows (core : Rect) (rowWidth siteWidth : Int) (name : Nat)
    (pick : Nat → Option OrientedSite) : Nat → Nat → Int → Option (List Row)
  | 0, _, _ => none
  | fuel + 1, row, y =>
      (pick row).bind fun s =>
        if y + height sites s > core.yMax then some []
        else (createRows core rowWidth siteWidth name pick fuel (row + 1) (y + height sites s)).map
          (⟨"ROW_" ++ toString (name + row), s.site, core.xMin, y, s.orientation, rowWidth, siteWidth⟩ :: ·)

variable (core : Rect)

def siteWidth : Int := ((sites base).rowPattern.head?.map fun s => (sites s.site).width).getD 0

def rowWidth : Int := (core.xMax - core.xMin).tdiv (siteWidth sites base)

/-- More steps than there are rows in the core. -/
def coreFuel : Nat := (core.yMax - core.yMin).toNat + 1

/-- The first loop of `makeHybridRows`. -/
def baseRows : Option (List Row) :=
  let rowPattern := (sites base).rowPattern
  createRows sites core (rowWidth sites base core) (siteWidth sites base) 0
    (fun row => rowPattern[row % rowPattern.length]?) (coreFuel core) 0 core.yMin

/-- `make_rows` with the number of rows that the block has. -/
def makeRows (numRows site : Nat) : Option (List Row) :=
  (getOffset sites base site).bind fun r =>
    createRows sites core (rowWidth sites base core) (siteWidth sites base) numRows
      (fun _ => some ⟨site, r.2⟩) (coreFuel core) 0 (r.1 + core.yMin)

/-- The rows that are added to a block with `present` rows. -/
def makeHybridRows (present : Nat) (sitesByName : List Nat) : Option (List Row) :=
  (baseRows sites base core).bind fun rows =>
    run (fun rows site =>
      if (sites site).rowPattern = [] then some rows
      else (makeRows sites base core (present + rows.length) site).map (rows ++ ·)) rows sitesByName

/-! ### What the rows should be -/

/-- The pattern is found from place `k` of the base pattern, which is repeated. -/
def OccursAt (basePattern pattern : RowPattern) (k : Nat) : Prop :=
  ∀ j < pattern.length, pattern[j]? = basePattern[(k + j) % basePattern.length]?

/-- The rows are stacked from `y` to `top`. -/
def Stacked (top : Int) : Int → List Row → Prop
  | y, [] => y = top
  | y, row :: rows => row.y = y ∧ Stacked top (y + (sites row.site).height) rows

/-- The row spans rows of `bases` that follow each other, whose sites and orientations are the
pattern. -/
def Spans (bases : List Row) (row : Row) (pattern : RowPattern) : Prop :=
  ∃ spanned, spanned <:+: bases ∧
    spanned.map (fun r => OrientedSite.mk r.site r.orient) = pattern ∧
    Stacked sites (row.y + (sites row.site).height) row.y spanned ∧
    ∀ r ∈ spanned, r.x = row.x ∧ r.numSites = row.numSites ∧ r.spacing = row.spacing

/-- The offset of a site is found exactly when its pattern occurs, as it is or flipped, and all rows
that are made for the site span base rows with its pattern, flipped for `MX`. -/
structure FollowsBase (site : Nat) : Prop where
  offset : (getOffset sites base site).isSome = true ↔
    ∃ k, OccursAt (sites base).rowPattern (sites site).rowPattern k ∨
      OccursAt (sites base).rowPattern (flipped (sites site).rowPattern) k
  rows : ∀ present sitesByName bases rows, site ∈ sitesByName →
    baseRows sites base core = some bases →
    makeHybridRows sites base core present sitesByName = some rows →
    ∀ row ∈ rows.drop bases.length, row.site = site →
      Spans sites bases row
        (if row.orient = .MX then flipped (sites site).rowPattern else (sites site).rowPattern)

/-- The pattern occurs at the first place of its first site in the base pattern. -/
def OccursFirst (basePattern pattern : RowPattern) (pos : Nat) : Prop :=
  (∃ first ∈ pattern.head?, basePattern.findIdx? (· = first) = some pos) ∧
    OccursAt basePattern pattern pos

/-- From place `pos` on the pattern is repeated as often as rows of the site fit in the core. -/
def RepeatsFrom (site : Nat) (pattern : RowPattern) (pos : Nat) : Prop :=
  ∀ j : Nat, core.yMin + (((sites base).rowPattern.take pos).map (height sites)).sum +
      (j + 1) * (sites site).height ≤ core.yMax →
    (sites site).height = (pattern.map (height sites)).sum ∧
      OccursAt (sites base).rowPattern pattern (pos + j * pattern.length)

/-- A pattern that occurs does so at the first place of its first site, and is repeated from there. -/
structure PatternRepeats (site : Nat) : Prop where
  first : (∃ k, OccursAt (sites base).rowPattern (sites site).rowPattern k ∨
      OccursAt (sites base).rowPattern (flipped (sites site).rowPattern) k) →
    ∃ pos, OccursFirst (sites base).rowPattern (sites site).rowPattern pos ∨
      OccursFirst (sites base).rowPattern (flipped (sites site).rowPattern) pos
  upright : ∀ pos, OccursFirst (sites base).rowPattern (sites site).rowPattern pos →
    RepeatsFrom sites base core site (sites site).rowPattern pos
  upsideDown : ∀ pos, (∀ pos', ¬OccursFirst (sites base).rowPattern (sites site).rowPattern pos') →
    OccursFirst (sites base).rowPattern (flipped (sites site).rowPattern) pos →
    RepeatsFrom sites base core site (flipped (sites site).rowPattern) pos

end

/-! ### Stacks of rows -/

/-- The height below number `k`. -/
def bottom (h : Nat → Int) (k : Nat) : Int := ((List.range k).map h).sum

section Stack

variable {h : Nat → Int}

theorem bottom_zero (h : Nat → Int) : bottom h 0 = 0 := rfl

theorem bottom_succ (h : Nat → Int) (k : Nat) : bottom h (k + 1) = bottom h k + h k := by
  simp [bottom, List.range_succ]

theorem bottom_add (h : Nat → Int) (k m : Nat) :
    bottom h (k + m) = bottom h k + ((List.range m).map fun j => h (k + j)).sum := by
  simp [bottom, List.range_add, Function.comp_def]

theorem strictMono_bottom (hpos : ∀ k, 0 < h k) : StrictMono (bottom h) :=
  strictMono_nat_of_lt_succ fun k => by
    rw [bottom_succ]
    exact Int.lt_add_of_pos_right _ (hpos k)

theorem bottom_const (v : Int) (k : Nat) : bottom (fun _ => v) k = k * v := by
  induction k with
  | zero => simp [bottom]
  | succ k ih => rw [bottom_succ, ih, Nat.cast_succ, Int.add_mul, Int.one_mul]

variable {sites : Nat → Site} {core : Rect} {rowWidth siteWidth : Int} {name : Nat}
  {s : Nat → OrientedSite}

/-- The row with number `k` of the stack from `y` up. -/
def stackRow (sites : Nat → Site) (core : Rect) (rowWidth siteWidth : Int) (name : Nat)
    (s : Nat → OrientedSite) (y : Int) (k : Nat) : Row :=
  ⟨"ROW_" ++ toString (name + k), (s k).site, core.xMin,
    y + bottom (fun k => height sites (s k)) k, (s k).orientation, rowWidth, siteWidth⟩

/-- The loop stops at the first row that does not fit, which is found with enough fuel. -/
theorem createRows_spec {y : Int} (fuel row : Nat) (hsome : 0 < fuel)
    (hfuel : core.yMax - (y + bottom (fun k => height sites (s k)) row) < fuel) :
    ∃ n, createRows sites core rowWidth siteWidth name (fun k => some (s k)) fuel row
        (y + bottom (fun k => height sites (s k)) row) =
        some ((List.range n).map fun k => stackRow sites core rowWidth siteWidth name s y (row + k)) ∧
      ∀ k, k < n ↔ y + bottom (fun k => height sites (s k)) (row + k + 1) ≤ core.yMax := by
  have hpos : ∀ k, 0 < height sites (s k) := fun k => (sites (s k).site).height_pos
  have hmono := strictMono_bottom hpos
  have hnext := bottom_succ (fun k => height sites (s k)) row
  induction fuel generalizing row with
  | zero => exact absurd hsome (lt_irrefl 0)
  | succ fuel ih =>
      have hrow := hpos row
      unfold createRows
      rw [Option.bind_some]
      split
      · rename_i hout
        refine ⟨0, rfl, fun k => ⟨fun hk => absurd hk (Nat.not_lt_zero k), fun hk => ?_⟩⟩
        have hle := hmono.monotone (show row + 1 ≤ row + k + 1 by omega)
        omega
      · rename_i hin
        obtain ⟨n, hrest, hn⟩ := ih (row + 1) (by omega) (by omega) (bottom_succ _ (row + 1))
        refine ⟨n + 1, ?_, fun k => ?_⟩
        · rw [show y + bottom (fun k => height sites (s k)) row + height sites (s row) =
            y + bottom (fun k => height sites (s k)) (row + 1) by omega, hrest, Option.map_some,
            List.range_succ_eq_map, List.map_cons, List.map_map]
          refine congrArg some (congrArg₂ List.cons rfl (List.map_congr_left fun k _ => ?_))
          exact congrArg _ (by omega)
        · cases k with
          | zero => exact ⟨fun _ => by rw [Nat.add_zero]; omega, fun _ => Nat.succ_pos n⟩
          | succ k =>
              rw [show row + (k + 1) + 1 = row + 1 + k + 1 by omega, ← hn k]
              exact Nat.succ_lt_succ_iff

theorem stacked_stackRows (y : Int) (k m : Nat) :
    Stacked sites (y + bottom (fun k => height sites (s k)) (k + m))
      (y + bottom (fun k => height sites (s k)) k)
      ((List.range m).map fun j => stackRow sites core rowWidth siteWidth name s y (k + j)) := by
  induction m generalizing k with
  | zero => rfl
  | succ m ih =>
      rw [List.range_succ_eq_map, List.map_cons, List.map_map]
      refine ⟨rfl, ?_⟩
      have hnext := ih (k + 1)
      rw [bottom_succ, ← Int.add_assoc] at hnext
      have hfun : (fun j => stackRow sites core rowWidth siteWidth name s y (k + 1 + j)) =
          (fun j => stackRow sites core rowWidth siteWidth name s y (k + j)) ∘ Nat.succ :=
        funext fun j => congrArg _ (by omega)
      rw [← hfun, show k + (m + 1) = k + 1 + m by omega]
      exact hnext

theorem Stacked.top_eq {rows : List Row} {y top : Int} (h : Stacked sites top y rows) :
    top = y + (rows.map fun r => (sites r.site).height).sum := by
  induction rows generalizing y with
  | nil => simpa using Eq.symm h
  | cons row rows ih =>
      rw [ih h.2, List.map_cons, List.sum_cons, Int.add_assoc]

/-- A part of a stack is the rows from one number to another. -/
theorem part_of_stack {f : Nat → Row} {n : Nat} {part : List Row}
    (h : part <:+: (List.range n).map f) :
    ∃ k, part = (List.range part.length).map fun j => f (k + j) := by
  obtain ⟨pre, post, heq⟩ := h
  refine ⟨pre.length, List.ext_getElem? fun j => ?_⟩
  have hget := congrArg (·[pre.length + j]?) heq
  have hlen := congrArg List.length heq
  simp only [List.length_append, List.length_map, List.length_range] at hlen
  by_cases hj : j < part.length
  · simpa [List.getElem?_append, hj, show pre.length + j < n by omega] using hget
  · simp [hj]

theorem isInfix_range (f : Nat → Row) (k m r : Nat) :
    ((List.range m).map fun j => f (k + j)) <:+: (List.range (k + m + r)).map f :=
  ⟨(List.range k).map f, (List.range r).map fun j => f (k + m + j), by
    simp [List.range_add, Function.comp_def]⟩

end Stack

/-! ### Patterns -/

/-- The base pattern repeated. -/
def cyclic (basePattern : RowPattern) (hbase : basePattern ≠ []) (k : Nat) : OrientedSite :=
  basePattern.get ⟨k % basePattern.length, Nat.mod_lt k (List.length_pos_of_ne_nil hbase)⟩

section Pattern

variable {basePattern pattern : RowPattern} (hbase : basePattern ≠ [])

theorem getElem?_cyclic (k : Nat) :
    basePattern[k % basePattern.length]? = some (cyclic basePattern hbase k) :=
  List.getElem?_eq_getElem _

theorem occursAt_iff {k : Nat} : OccursAt basePattern pattern k ↔
    pattern = (List.range pattern.length).map fun j => cyclic basePattern hbase (k + j) := by
  constructor
  · intro h
    refine List.ext_getElem? fun j => ?_
    by_cases hj : j < pattern.length
    · rw [h j hj, getElem?_cyclic hbase, List.getElem?_map, List.getElem?_range hj]
      rfl
    · simp [hj]
  · intro h j hj
    rw [getElem?_cyclic hbase, h]
    simp [hj]

theorem occursAt_mod {k : Nat} :
    OccursAt basePattern pattern (k % basePattern.length) ↔ OccursAt basePattern pattern k := by
  refine forall₂_congr fun j _ => ?_
  rw [Nat.mod_add_mod]

theorem map_take_cyclic {f : OrientedSite → Int} {pos : Nat} (hpos : pos ≤ basePattern.length) :
    ((basePattern.take pos).map f).sum = bottom (fun k => f (cyclic basePattern hbase k)) pos := by
  refine congrArg List.sum (List.ext_getElem? fun k => ?_)
  by_cases hk : k < pos
  · have hmod := getElem?_cyclic hbase k
    rw [Nat.mod_eq_of_lt (hk.trans_le hpos)] at hmod
    simp [hk, hmod]
  · simp [hk]

theorem OccursAt.sum_map {f : OrientedSite → Int} {k : Nat} (h : OccursAt basePattern pattern k) :
    bottom (fun k => f (cyclic basePattern hbase k)) (k + pattern.length) =
      bottom (fun k => f (cyclic basePattern hbase k)) k + (pattern.map f).sum := by
  rw [bottom_add]
  conv_rhs => rw [(occursAt_iff hbase).mp h]
  rw [List.map_map]
  rfl

variable {sites : Nat → Site} {base : Nat} {offset : Int}

theorem OccursFirst.unique {pos pos' : Nat} (h : OccursFirst basePattern pattern pos)
    (h' : OccursFirst basePattern pattern pos') : pos = pos' := by
  obtain ⟨⟨first, hfirst, hpos⟩, -⟩ := h
  obtain ⟨⟨first', hfirst', hpos'⟩, -⟩ := h'
  obtain rfl := Option.mem_unique hfirst hfirst'
  exact Option.some.inj (hpos.symm.trans hpos')

theorem OccursFirst.lt {pos : Nat} (h : OccursFirst basePattern pattern pos) :
    pos < basePattern.length := by
  obtain ⟨⟨first, -, hpos⟩, -⟩ := h
  exact (List.findIdx?_eq_some_iff_findIdx_eq.mp hpos).1

theorem matchPattern_eq_some : matchPattern sites base pattern = some offset ↔
    ∃ pos, OccursFirst (sites base).rowPattern pattern pos ∧
      offset = (((sites base).rowPattern.take pos).map (height sites)).sum := by
  cases pattern with
  | nil => simp [matchPattern, OccursFirst]
  | cons first rest =>
      have hall : ∀ pos, (((first :: rest).zipIdx pos).all fun e =>
          (sites base).rowPattern[e.2 % (sites base).rowPattern.length]? = some e.1) = true ↔
          OccursAt (sites base).rowPattern (first :: rest) pos := by
        intro pos
        rw [List.all_eq_true]
        constructor
        · intro h j hj
          have hmem : ((first :: rest)[j], pos + j) ∈ (first :: rest).zipIdx pos := by
            rw [List.mk_mem_zipIdx_iff_le_and_getElem?_sub, Nat.add_sub_cancel_left]
            exact ⟨Nat.le_add_right pos j, List.getElem?_eq_getElem hj⟩
          rw [List.getElem?_eq_getElem hj]
          exact (of_decide_eq_true (h _ hmem)).symm
        · rintro h ⟨s, i⟩ hmem
          obtain ⟨hle, hs⟩ := List.mk_mem_zipIdx_iff_le_and_getElem?_sub.mp hmem
          have hat := h (i - pos) (List.getElem?_eq_some_iff.mp hs).1
          rw [hs, Nat.add_sub_cancel' hle] at hat
          exact decide_eq_true hat.symm
      unfold matchPattern
      simp only [Option.bind_eq_some_iff, Option.ite_none_right_eq_some, hall, OccursFirst,
        List.head?_cons, Option.mem_def, Option.some.injEq, exists_eq_left']
      constructor
      · rintro ⟨pos, hpos, hoccurs, rfl⟩
        exact ⟨pos, ⟨hpos, hoccurs⟩, rfl⟩
      · rintro ⟨pos, ⟨hpos, hoccurs⟩, rfl⟩
        exact ⟨pos, hpos, hoccurs, rfl⟩

end Pattern

/-! ### The rows of a site -/

section Rows

variable {sites : Nat → Site} {base : Nat} {core : Rect} {site : Nat} {offset : Int} {orient : Orient}

/-- The pattern that is matched, its place and the orientation of the rows. -/
structure Placed (sites : Nat → Site) (base site : Nat) (pattern : RowPattern) (pos : Nat)
    (orient : Orient) : Prop where
  pattern_eq : pattern =
    if orient = .MX then flipped (sites site).rowPattern else (sites site).rowPattern
  first : OccursFirst (sites base).rowPattern pattern pos
  orient_eq : orient = .R0 ∨ orient = .MX ∧
    ∀ pos', ¬OccursFirst (sites base).rowPattern (sites site).rowPattern pos'

theorem getOffset_eq_some : getOffset sites base site = some (offset, orient) ↔
    ∃ pattern pos, Placed sites base site pattern pos orient ∧
      offset = (((sites base).rowPattern.take pos).map (height sites)).sum := by
  have hnone : matchPattern sites base (sites site).rowPattern = none ↔
      ∀ pos, ¬OccursFirst (sites base).rowPattern (sites site).rowPattern pos := by
    rw [Option.eq_none_iff_forall_ne_some]
    constructor
    · exact fun h pos hpos => h _ (matchPattern_eq_some.mpr ⟨pos, hpos, rfl⟩)
    · rintro h r hr
      obtain ⟨pos, hpos, -⟩ := matchPattern_eq_some.mp hr
      exact h pos hpos
  unfold getOffset
  dsimp only
  constructor
  · intro h
    split at h
    · rename_i hmatch
      obtain ⟨rfl, rfl⟩ := Prod.mk.inj (Option.some.inj h)
      obtain ⟨pos, hpos, hoffset⟩ := matchPattern_eq_some.mp hmatch
      exact ⟨_, pos, ⟨rfl, hpos, Or.inl rfl⟩, hoffset⟩
    · rename_i hmatch
      obtain ⟨r, hr, hpair⟩ := Option.map_eq_some_iff.mp h
      obtain ⟨rfl, rfl⟩ := Prod.mk.inj hpair
      obtain ⟨pos, hpos, hoffset⟩ := matchPattern_eq_some.mp hr
      exact ⟨_, pos, ⟨rfl, hpos, Or.inr ⟨rfl, hnone.mp hmatch⟩⟩, hoffset⟩
  · rintro ⟨pattern, pos, ⟨rfl, hpos, rfl | ⟨rfl, hnot⟩⟩, hoffset⟩
    · have hmatch : matchPattern sites base (sites site).rowPattern = some offset :=
        matchPattern_eq_some.mpr ⟨pos, hpos, hoffset⟩
      rw [hmatch]
    · have hmatch : matchPattern sites base (flipped (sites site).rowPattern) = some offset :=
        matchPattern_eq_some.mpr ⟨pos, hpos, hoffset⟩
      rw [hnone.mpr hnot, hmatch]
      rfl

theorem isSome_getOffset : (getOffset sites base site).isSome = true ↔
    ∃ pos, OccursFirst (sites base).rowPattern (sites site).rowPattern pos ∨
      OccursFirst (sites base).rowPattern (flipped (sites site).rowPattern) pos := by
  rw [Option.isSome_iff_exists]
  constructor
  · rintro ⟨⟨offset, orient⟩, h⟩
    obtain ⟨pattern, pos, ⟨rfl, hpos, rfl | ⟨rfl, -⟩⟩, -⟩ := getOffset_eq_some.mp h
    · exact ⟨pos, Or.inl hpos⟩
    · exact ⟨pos, Or.inr hpos⟩
  · rintro ⟨pos, hpos⟩
    by_cases hup : ∃ pos, OccursFirst (sites base).rowPattern (sites site).rowPattern pos
    · obtain ⟨pos', hpos'⟩ := hup
      exact ⟨(_, .R0), getOffset_eq_some.mpr ⟨_, pos', ⟨rfl, hpos', Or.inl rfl⟩, rfl⟩⟩
    · rcases hpos with hpos | hpos
      · exact absurd ⟨pos, hpos⟩ hup
      · exact ⟨(_, .MX), getOffset_eq_some.mpr
          ⟨_, pos, ⟨rfl, hpos, Or.inr ⟨rfl, not_exists.mp hup⟩⟩, rfl⟩⟩

theorem baseRows_spec (hbase : (sites base).rowPattern ≠ []) :
    ∃ n, baseRows sites base core = some ((List.range n).map
        (stackRow sites core (rowWidth sites base core) (siteWidth sites base) 0
          (cyclic (sites base).rowPattern hbase) core.yMin)) ∧
      ∀ k, k < n ↔ core.yMin + bottom (fun k => height sites (cyclic _ hbase k)) (k + 1) ≤ core.yMax := by
  obtain ⟨n, hrows, hn⟩ := @createRows_spec sites core (rowWidth sites base core)
    (siteWidth sites base) 0 (cyclic (sites base).rowPattern hbase) core.yMin (coreFuel core) 0
    (Nat.succ_pos _) (by simp only [bottom_zero, coreFuel]; omega)
  refine ⟨n, ?_, fun k => by simpa using hn k⟩
  unfold baseRows
  simp only [getElem?_cyclic hbase]
  simpa [bottom] using hrows

theorem makeRows_spec {numRows : Nat} (h : getOffset sites base site = some (offset, orient))
    (hoffset : 0 ≤ offset) :
    ∃ n, makeRows sites base core numRows site = some ((List.range n).map
        (stackRow sites core (rowWidth sites base core) (siteWidth sites base) numRows
          (fun _ => ⟨site, orient⟩) (offset + core.yMin))) ∧
      ∀ j : Nat, j < n ↔ offset + core.yMin + (j + 1) * (sites site).height ≤ core.yMax := by
  obtain ⟨n, hrows, hn⟩ := @createRows_spec sites core (rowWidth sites base core)
    (siteWidth sites base) numRows (fun _ => ⟨site, orient⟩) (offset + core.yMin) (coreFuel core) 0
    (Nat.succ_pos _) (by simp only [bottom_zero, coreFuel]; omega)
  refine ⟨n, ?_, fun j => ?_⟩
  · unfold makeRows
    rw [h, Option.bind_some]
    simpa [bottom] using hrows
  · rw [hn j, bottom_const]
    simp [height]

/-- A row that starts at the bottom of base row `k` spans base rows with the pattern if it occurs
there and is as high as the row. -/
theorem spans_iff (hbase : (sites base).rowPattern ≠ []) {pattern : RowPattern} (hpattern : pattern ≠ [])
    {w sw : Int} {name n k : Nat} {row : Row}
    (hn : ∀ k, k < n ↔
      core.yMin + bottom (fun k => height sites (cyclic _ hbase k)) (k + 1) ≤ core.yMax)
    (hrow : row.x = core.xMin ∧ row.numSites = w ∧ row.spacing = sw)
    (hy : row.y = core.yMin + bottom (fun k => height sites (cyclic _ hbase k)) k)
    (hfits : row.y + (sites row.site).height ≤ core.yMax) :
    Spans sites ((List.range n).map
        (stackRow sites core w sw name (cyclic (sites base).rowPattern hbase) core.yMin)) row pattern ↔
      (sites row.site).height = (pattern.map (height sites)).sum ∧
        OccursAt (sites base).rowPattern pattern k := by
  have hmono : StrictMono (bottom fun k => height sites (cyclic (sites base).rowPattern hbase k)) :=
    strictMono_bottom fun k => (sites (cyclic _ hbase k).site).height_pos
  constructor
  · rintro ⟨spanned, hpart, hmap, hstacked, -⟩
    obtain ⟨k', hspanned⟩ := part_of_stack hpart
    have hk : k' = k := by
      cases spanned with
      | nil => exact absurd hmap.symm hpattern
      | cons first rest =>
          rw [List.length_cons, List.range_succ_eq_map, List.map_cons] at hspanned
          have hfirst : first.y = core.yMin + bottom
              (fun k => height sites (cyclic (sites base).rowPattern hbase k)) k' :=
            congrArg Row.y (List.cons.inj hspanned).1
          have hsame : first.y = row.y := hstacked.1
          exact hmono.injective (by omega)
    subst hk
    have htop := hstacked.top_eq
    constructor
    · rw [← hmap, List.map_map]
      exact Int.add_left_cancel htop
    · rw [occursAt_iff hbase, ← hmap, List.length_map]
      conv_lhs => rw [hspanned]
      rw [List.map_map]
      rfl
  · rintro ⟨hheight, hoccurs⟩
    have htop : bottom (fun k => height sites (cyclic _ hbase k)) (k + pattern.length) = _ :=
      hoccurs.sum_map hbase
    have hlen : 0 < pattern.length := List.length_pos_of_ne_nil hpattern
    have hle : k + pattern.length ≤ n := by
      have hlast := (hn (k + pattern.length - 1)).mpr (by
        rw [Nat.sub_add_cancel (by omega), htop]
        omega)
      omega
    obtain ⟨r, rfl⟩ := Nat.exists_eq_add_of_le hle
    refine ⟨(List.range pattern.length).map fun j => stackRow sites core w sw name
      (cyclic (sites base).rowPattern hbase) core.yMin (k + j), isInfix_range _ k _ r, ?_, ?_, ?_⟩
    · rw [List.map_map]
      exact ((occursAt_iff hbase).mp hoccurs).symm
    · have hstacked := @stacked_stackRows sites core w sw name
        (cyclic (sites base).rowPattern hbase) core.yMin k pattern.length
      rw [htop, ← Int.add_assoc, ← hy, ← hheight] at hstacked
      exact hstacked
    · intro r hr
      obtain ⟨j, -, rfl⟩ := List.mem_map.mp hr
      exact ⟨hrow.1.symm, hrow.2.1.symm, hrow.2.2.symm⟩

/-- The rows of a site span base rows with the pattern exactly when the pattern is repeated. -/
theorem spans_rows_iff (hbase : (sites base).rowPattern ≠ []) {pattern : RowPattern} {pos n n' : Nat}
    {w sw : Int} {name name' : Nat} (hfirst : OccursFirst (sites base).rowPattern pattern pos)
    (hoffset : offset = (((sites base).rowPattern.take pos).map (height sites)).sum)
    (hn : ∀ k, k < n ↔
      core.yMin + bottom (fun k => height sites (cyclic _ hbase k)) (k + 1) ≤ core.yMax)
    (hn' : ∀ j : Nat, j < n' ↔ offset + core.yMin + (j + 1) * (sites site).height ≤ core.yMax) :
    (∀ row ∈ (List.range n').map (stackRow sites core w sw name' (fun _ => ⟨site, orient⟩)
        (offset + core.yMin)), Spans sites ((List.range n).map (stackRow sites core w sw name
          (cyclic (sites base).rowPattern hbase) core.yMin)) row pattern) ↔
      RepeatsFrom sites base core site pattern pos := by
  have hpattern : pattern ≠ [] := by
    rintro rfl
    obtain ⟨⟨first, hnone, -⟩, -⟩ := hfirst
    exact Option.not_mem_none _ hnone
  have hplace := hoffset.trans (map_take_cyclic hbase hfirst.lt.le)
  -- as long as the pattern is repeated, each row starts at the bottom of a base row
  have haligned : ∀ j : Nat, (∀ i < j, (sites site).height = (pattern.map (height sites)).sum ∧
      OccursAt (sites base).rowPattern pattern (pos + i * pattern.length)) →
      bottom (fun k => height sites (cyclic _ hbase k)) (pos + j * pattern.length) =
        offset + j * (sites site).height := by
    intro j hgood
    induction j with
    | zero => simpa using hplace.symm
    | succ j ih =>
        obtain ⟨hheight, hoccurs⟩ := hgood j (Nat.lt_succ_self j)
        have hsum : bottom (fun k => height sites (cyclic _ hbase k))
          (pos + j * pattern.length + pattern.length) = _ := hoccurs.sum_map hbase
        rw [Nat.succ_mul, ← Nat.add_assoc, hsum, ih fun i hi => hgood i (hi.trans (Nat.lt_succ_self j)),
          ← hheight]
        push_cast
        ring
  have hrow : ∀ j : Nat, j < n' → (∀ i < j, (sites site).height = (pattern.map (height sites)).sum ∧
      OccursAt (sites base).rowPattern pattern (pos + i * pattern.length)) →
      (Spans sites ((List.range n).map (stackRow sites core w sw name
          (cyclic (sites base).rowPattern hbase) core.yMin))
        (stackRow sites core w sw name' (fun _ => ⟨site, orient⟩) (offset + core.yMin) j) pattern ↔
      (sites site).height = (pattern.map (height sites)).sum ∧
        OccursAt (sites base).rowPattern pattern (pos + j * pattern.length)) := by
    intro j hj hgood
    have hbottom : bottom (fun _ => (sites site).height) j = j * (sites site).height := bottom_const _ j
    have hfits := (hn' j).mp hj
    refine spans_iff hbase hpattern hn ⟨rfl, rfl, rfl⟩ ?_ ?_
    · show offset + core.yMin + bottom (fun _ => (sites site).height) j = _
      rw [haligned j hgood, hbottom]
      ring
    · show offset + core.yMin + bottom (fun _ => (sites site).height) j + (sites site).height ≤ _
      rw [hbottom]
      linarith
  have hroom : ∀ j : Nat, j < n' ↔ core.yMin + (((sites base).rowPattern.take pos).map
      (height sites)).sum + (j + 1) * (sites site).height ≤ core.yMax := fun j => by
    rw [hn' j, ← hoffset, Int.add_comm offset]
  constructor
  · intro hall j
    rw [← hroom j]
    induction j using Nat.strong_induction_on with
    | _ j ih =>
        intro hj
        exact (hrow j hj fun i hi => ih i hi (hi.trans hj)).mp
          (hall _ (List.mem_map.mpr ⟨j, List.mem_range.mpr hj, rfl⟩))
  · intro hrepeats row hmem
    obtain ⟨j, hj, rfl⟩ := List.mem_map.mp hmem
    have hlt := List.mem_range.mp hj
    exact (hrow j hlt fun i hi => hrepeats i ((hroom i).mp (hi.trans hlt))).mpr
      (hrepeats j ((hroom j).mp hlt))

/-- The rows behind the base rows come from the sites with a pattern. -/
def AddedTo (sites : Nat → Site) (base : Nat) (core : Rect) (bases rows : List Row) : Prop :=
  ∃ added, rows = bases ++ added ∧ ∀ row ∈ added, ∃ site numRows made,
    makeRows sites base core numRows site = some made ∧ row ∈ made

theorem addedTo_makeHybridRows {present : Nat} {sitesByName : List Nat} {bases rows : List Row}
    (hbases : baseRows sites base core = some bases)
    (hrows : makeHybridRows sites base core present sitesByName = some rows) :
    AddedTo sites base core bases rows := by
  unfold makeHybridRows at hrows
  rw [hbases, Option.bind_some] at hrows
  refine run_invariant_of_step
    (fun rows site rows' (h : AddedTo sites base core bases rows) hstep => ?_)
    ⟨[], (List.append_nil bases).symm, fun _ hmem => absurd hmem List.not_mem_nil⟩ hrows
  obtain ⟨added, rfl, hadded⟩ := h
  split at hstep
  · exact ⟨added, (Option.some.inj hstep).symm, hadded⟩
  · obtain ⟨made, hmade, rfl⟩ := Option.map_eq_some_iff.mp hstep
    refine ⟨added ++ made, List.append_assoc _ _ _, fun row hrow => ?_⟩
    rcases List.mem_append.mp hrow with hrow | hrow
    · exact hadded row hrow
    · exact ⟨site, _, made, hmade, hrow⟩

/-- A single site: its rows are all that is added. -/
theorem makeHybridRows_singleton {bases made : List Row} (hsite : (sites site).rowPattern ≠ [])
    (hbases : baseRows sites base core = some bases)
    (hmade : makeRows sites base core bases.length site = some made) :
    makeHybridRows sites base core 0 [site] = some (bases ++ made) := by
  unfold makeHybridRows
  rw [hbases, Option.bind_some, run_cons, if_neg hsite, Nat.zero_add, hmade]
  rfl

/-- The offset is found for every pattern that occurs, and the rows follow the base pattern, exactly when
the pattern is found at its first site and repeated from there. -/
theorem followsBase_iff (sites : Nat → Site) (base : Nat) (core : Rect) (site : Nat)
    (hbase : (sites base).rowPattern ≠ []) (hsite : (sites site).rowPattern ≠ []) :
    FollowsBase sites base core site ↔ PatternRepeats sites base core site := by
  obtain ⟨n, hbases, hn⟩ := @baseRows_spec sites base core hbase
  -- what holds of the rows of the site, for the pattern that is matched
  have hrows : ∀ {site pattern pos orient}, Placed sites base site pattern pos orient → ∀ numRows,
      ∃ made, makeRows sites base core numRows site = some made ∧
        (∀ row ∈ made, row.site = site ∧ row.orient = orient) ∧
        ((∀ row ∈ made, Spans sites ((List.range n).map (stackRow sites core
          (rowWidth sites base core) (siteWidth sites base) 0 (cyclic (sites base).rowPattern hbase)
          core.yMin)) row pattern) ↔ RepeatsFrom sites base core site pattern pos) := by
    intro site pattern pos orient hplaced numRows
    have hoffset := getOffset_eq_some.mpr ⟨pattern, pos, hplaced, rfl⟩
    have hnonneg : 0 ≤ (((sites base).rowPattern.take pos).map (height sites)).sum :=
      List.sum_nonneg fun h hmem => by
        obtain ⟨s, -, rfl⟩ := List.mem_map.mp hmem
        exact (sites s.site).height_pos.le
    obtain ⟨n', hmade, hn'⟩ := @makeRows_spec _ _ core _ _ _ numRows hoffset hnonneg
    refine ⟨_, hmade, fun row hrow => ?_, spans_rows_iff hbase hplaced.first rfl hn hn'⟩
    obtain ⟨j, -, rfl⟩ := List.mem_map.mp hrow
    exact ⟨rfl, rfl⟩
  constructor
  · intro h
    have hrepeats : ∀ {pattern pos orient}, Placed sites base site pattern pos orient →
        RepeatsFrom sites base core site pattern pos := by
      intro pattern pos orient hplaced
      obtain ⟨made, hmade, hof, hiff⟩ := hrows hplaced ((List.range n).map _).length
      refine hiff.mp fun row hrow => ?_
      have hspans := h.rows 0 [site] _ _ (List.mem_singleton.mpr rfl) hbases
        (makeHybridRows_singleton hsite hbases hmade) row (by rwa [List.drop_left]) (hof row hrow).1
      rwa [(hof row hrow).2, ← hplaced.pattern_eq] at hspans
    exact ⟨fun hoccurs => isSome_getOffset.mp (h.offset.mpr hoccurs),
      fun pos hpos => hrepeats ⟨rfl, hpos, Or.inl rfl⟩,
      fun pos hnot hpos => hrepeats ⟨rfl, hpos, Or.inr ⟨rfl, hnot⟩⟩⟩
  · intro h
    refine ⟨isSome_getOffset.trans ⟨?_, h.first⟩, ?_⟩
    · rintro ⟨pos, hpos | hpos⟩
      · exact ⟨pos, Or.inl hpos.2⟩
      · exact ⟨pos, Or.inr hpos.2⟩
    · intro present sitesByName bases rows _ hbases' hrows' row hrow hof
      obtain rfl := Option.some.inj (hbases.symm.trans hbases')
      obtain ⟨added, rfl, hadded⟩ := addedTo_makeHybridRows hbases hrows'
      rw [List.drop_left] at hrow
      obtain ⟨site', numRows, made, hmade, hmem⟩ := hadded row hrow
      obtain ⟨⟨offset, orient⟩, hoffset, -⟩ := Option.bind_eq_some_iff.mp hmade
      obtain ⟨pattern, pos, hplaced, -⟩ := getOffset_eq_some.mp hoffset
      obtain ⟨made', hmade', hof', hiff⟩ := hrows hplaced numRows
      obtain rfl := Option.some.inj (hmade.symm.trans hmade')
      obtain ⟨rfl, rfl⟩ : row.site = site' ∧ row.orient = orient := hof' row hmem
      subst hof
      rw [← hplaced.pattern_eq]
      refine hiff.mpr ?_ row hmem
      obtain ⟨rfl, hpos, hup | ⟨hdown, hnot⟩⟩ := hplaced
      · rw [hup] at hpos ⊢
        exact h.upright pos hpos
      · rw [hdown] at hpos ⊢
        exact h.upsideDown pos hnot hpos

end Rows

/-! ### Two heights of sites -/

/-- Two sites, the hybrid site of one above the other, its double, and one with the lower site twice. -/
def hybridSites : Nat → Site
  | 0 => ⟨1, 2, Int.one_pos, by decide, [], .CORE⟩
  | 1 => ⟨1, 3, Int.one_pos, by decide, [], .CORE⟩
  | 2 => ⟨1, 5, Int.one_pos, by decide, [⟨0, .R0⟩, ⟨1, .R0⟩], .CORE⟩
  | 3 => ⟨1, 10, Int.one_pos, by decide, [⟨0, .R0⟩, ⟨1, .R0⟩, ⟨0, .R0⟩, ⟨1, .R0⟩], .CORE⟩
  | _ => ⟨1, 7, Int.one_pos, by decide, [⟨0, .R0⟩, ⟨0, .R0⟩, ⟨1, .R0⟩], .CORE⟩

/-- The rows of the double follow the base pattern. -/
theorem followsBase_iff_double : FollowsBase hybridSites 2 ⟨0, 0, 10, 40⟩ 3 := by
  have hzero : OccursAt (hybridSites 2).rowPattern (hybridSites 3).rowPattern 0 := by
    unfold OccursAt
    decide
  have hfirst : OccursFirst (hybridSites 2).rowPattern (hybridSites 3).rowPattern 0 :=
    ⟨⟨_, rfl, rfl⟩, hzero⟩
  refine (followsBase_iff hybridSites 2 ⟨0, 0, 10, 40⟩ 3 (List.cons_ne_nil _ _)
    (List.cons_ne_nil _ _)).mpr ⟨fun _ => ⟨0, Or.inl hfirst⟩, fun pos hpos j _ => ⟨rfl, ?_⟩,
      fun pos hnot => absurd hfirst (hnot 0)⟩
  obtain rfl := hpos.unique hfirst
  rw [← occursAt_mod]
  have hphase : (0 + j * (hybridSites 3).rowPattern.length) % (hybridSites 2).rowPattern.length = 0 := by
    show (0 + j * 4) % 2 = 0
    omega
  rw [hphase]
  exact hzero

/-- The lower site followed by the upper one is not found behind another lower site. -/
theorem not_followsBase :
    ¬∀ (sites : Nat → Site) (base : Nat) (core : Rect) (site : Nat), (sites base).rowPattern ≠ [] →
      (sites site).rowPattern ≠ [] → FollowsBase sites base core site := by
  intro hall
  have hfollows := hall hybridSites 4 ⟨0, 0, 10, 40⟩ 2 (List.cons_ne_nil _ _) (List.cons_ne_nil _ _)
  have hoccurs : OccursAt (hybridSites 4).rowPattern (hybridSites 2).rowPattern 1 := by
    unfold OccursAt
    decide
  have hsome := hfollows.offset.mpr ⟨1, Or.inl hoccurs⟩
  have hnone : (getOffset hybridSites 4 2).isSome = false := by decide
  exact absurd (hnone.symm.trans hsome) Bool.false_ne_true

end OpenRoad.Ifp
