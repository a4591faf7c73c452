import OpenRoad.DplFiller
import Mathlib.Algebra.Order.BigOperators.Group.List
import Mathlib.Algebra.Order.Ring.Int

/-!
The runs of a row are filled from left to right. If the masters taken greedily add up to each
maximal run of empty valid sites, every such site is covered by one filler and every other site by
none; otherwise the first run for which they do not stops the row.
-/

namespace OpenRoad.Dpl

open Db (Orient)

namespace FillRow

variable (R : FillRow)

/-- A run of sites to be filled that cannot be extended. -/
structure MaximalRun (j k : Int) : Prop where
  nonneg : 0 ≤ j
  lt : j < k
  le : k ≤ R.rowSiteCount
  empty : ∀ i, j ≤ i → i < k → R.isEmpty i = true
  left : j = 0 ∨ R.isEmpty (j - 1) = false
  right : k = R.rowSiteCount ∨ R.isEmpty k = false

/-- The widths of all fillers are positive multiples of the site width. -/
def WidthsOk (lib : MasterByImplant) : Prop :=
  ∀ group ∈ lib.groups, ∀ m ∈ group.2, ∃ n, 0 < n ∧ m.width = n * R.siteWidth

/-- The fillers of the run's implant, taken greedily, add up to the run. -/
def Filled (lib : MasterByImplant) (j k : Int) : Prop :=
  ∃ implant masters, R.runImplant lib j k = some implant ∧
    lib.groups.lookup implant = some masters ∧
    greedyRest (R.haveFiller1 masters) (k - j) (masters.map R.sites) = 0

/-- What is kept for a gap is what would be chosen for it. -/
def CacheOk (lib : MasterByImplant) (cache : GapFillers) : Prop :=
  ∀ implant gap, cache implant gap = [] ∨ ∃ masters, lib.groups.lookup implant = some masters ∧
    cache implant gap = R.chooseFillers (R.haveFiller1 masters) gap masters 0 []

/-- The filler covers a site. -/
def covers (i : Int) (inst : FillerInst) : Bool :=
  inst.x ≤ R.coreXMin + i * R.siteWidth &&
    R.coreXMin + (i + 1) * R.siteWidth ≤ inst.x + inst.master.width

/-- The filler stands on whole sites from `lo` up to `hi`. -/
def Aligned (lo hi : Int) (inst : FillerInst) : Prop :=
  ∃ c n, 0 < n ∧ lo ≤ c ∧ c + n ≤ hi ∧ inst.x = R.coreXMin + c * R.siteWidth ∧
    inst.master.width = n * R.siteWidth

/-- Fillers on whole sites that cover each site to be filled once and no other site. -/
def Tiled (insts : List FillerInst) : Prop :=
  (∀ inst ∈ insts, R.Aligned 0 R.rowSiteCount inst) ∧
    ∀ i, 0 ≤ i → i < R.rowSiteCount →
      insts.countP (R.covers i) = if R.isEmpty i then 1 else 0

variable {R} {lib : MasterByImplant} {cache : GapFillers}

/-! ### Runs -/

theorem runEnd_spec (fuel : Nat) : ∀ j, j + fuel = R.rowSiteCount →
    j ≤ R.runEnd fuel j ∧ R.runEnd fuel j ≤ R.rowSiteCount ∧
      (∀ i, j ≤ i → i < R.runEnd fuel j → R.isEmpty i = true) ∧
      (R.runEnd fuel j = R.rowSiteCount ∨ R.isEmpty (R.runEnd fuel j) = false) := by
  induction fuel with
  | zero =>
      intro j hj
      refine ⟨le_rfl, by unfold runEnd; omega, fun i hlo hhi => ?_, Or.inl (by unfold runEnd; omega)⟩
      unfold runEnd at hhi
      omega
  | succ fuel ih =>
      intro j hj
      unfold runEnd
      by_cases hempty : R.isEmpty j = true
      · obtain ⟨hle, hcount, hall, hright⟩ := ih (j + 1) (by omega)
        rw [if_pos ⟨by omega, hempty⟩]
        refine ⟨by omega, hcount, fun i hlo hhi => ?_, hright⟩
        rcases hlo.eq_or_lt with rfl | hlt
        · exact hempty
        · exact hall i (by omega) hhi
      · rw [if_neg fun h => hempty h.2]
        refine ⟨le_rfl, by omega, fun i hlo hhi => by omega, Or.inr (by simpa using hempty)⟩

/-- The run that the loop finds at the start of one. -/
theorem maximalRun_runEnd {j : Int} (hj : 0 ≤ j) (hlt : j < R.rowSiteCount)
    (hempty : R.isEmpty j = true) (hleft : j = 0 ∨ R.isEmpty (j - 1) = false) :
    R.MaximalRun j (R.runEnd (R.rowSiteCount - j).toNat j) := by
  obtain ⟨hle, hcount, hall, hright⟩ := runEnd_spec (R := R) (R.rowSiteCount - j).toNat j (by omega)
  refine ⟨hj, ?_, hcount, hall, hleft, hright⟩
  rcases hle.eq_or_lt with heq | hlt'
  · rw [← heq] at hright
    rcases hright with h | h
    · omega
    · rw [hempty] at h
      cases h
  · exact hlt'

theorem MaximalRun.end_unique {j k k' : Int} (h : R.MaximalRun j k) (h' : R.MaximalRun j k') :
    k = k' := by
  rcases lt_trichotomy k k' with hlt | heq | hgt
  · rcases h.right with hr | hr
    · have := h'.le
      omega
    · rw [h'.empty k h.lt.le hlt] at hr
      cases hr
  · exact heq
  · rcases h'.right with hr | hr
    · have := h.le
      omega
    · rw [h.empty k' h'.lt.le hgt] at hr
      cases hr

/-- A run that starts behind the start of another one starts behind its end. -/
theorem MaximalRun.start_of_lt {j k a b : Int} (h : R.MaximalRun j k) (h' : R.MaximalRun a b)
    (hlt : j < a) : k ≤ a := by
  by_contra hnot
  rcases h'.left with hl | hl
  · have := h.nonneg
    omega
  · rw [h.empty (a - 1) (by omega) (by omega)] at hl
    cases hl

/-! ### The library -/

theorem mem_of_lookup {implant : Option Nat} {masters : List FillMaster}
    (h : lib.groups.lookup implant = some masters) : (implant, masters) ∈ lib.groups := by
  obtain ⟨front, back, heq, -⟩ := List.lookup_eq_some_iff.mp h
  rw [heq]
  exact List.mem_append.mpr (Or.inr List.mem_cons_self)

theorem sites_of_width {m : FillMaster} {n : Int} (hsite : 0 < R.siteWidth)
    (h : m.width = n * R.siteWidth) : R.sites m = n := by
  unfold sites
  rw [h, Int.mul_tdiv_cancel _ hsite.ne']

/-- Each filler of an implant is at least one site wide, and at least two if none is one. -/
theorem masters_ok (hsite : 0 < R.siteWidth) (hwidths : R.WidthsOk lib) {implant : Option Nat}
    {masters : List FillMaster} (h : lib.groups.lookup implant = some masters) :
    ∀ m ∈ masters, 0 < R.sites m ∧ (R.haveFiller1 masters = true ∨ 2 ≤ R.sites m) := by
  intro m hm
  have hmem := mem_of_lookup h
  obtain ⟨n, hn, hwidth⟩ := hwidths _ hmem m hm
  have hsites := sites_of_width hsite hwidth
  refine ⟨by omega, ?_⟩
  obtain ⟨front, smallest, hfront⟩ :=
    (List.eq_nil_or_concat masters).resolve_left (lib.ne_nil _ hmem)
  rw [List.concat_eq_append] at hfront
  have hlast : masters.getLast? = some smallest := by rw [hfront, List.getLast?_concat]
  obtain ⟨n', hn', hwidth'⟩ := hwidths _ hmem smallest (by rw [hfront]; simp)
  have hle : smallest.width ≤ m.width := by
    have hsorted := lib.sorted _ hmem
    rw [hfront] at hsorted hm
    rcases List.mem_append.mp hm with hm | hm
    · exact (List.pairwise_append.mp hsorted).2.2 m hm smallest (by simp)
    · rw [List.mem_singleton.mp hm]
  by_cases hone : smallest.width = R.siteWidth
  · left
    unfold haveFiller1
    rw [hlast]
    exact decide_eq_true hone
  · right
    have hn2 : n' ≠ 1 := by
      rintro rfl
      exact hone (by rw [hwidth', Int.one_mul])
    rw [hwidth, hwidth'] at hle
    have hle' : n' ≤ n := le_of_mul_le_mul_right hle hsite
    omega

theorem gapFillers_spec {implant : Option Nat} {masters : List FillMaster} (gap : Int)
    (h : lib.groups.lookup implant = some masters) (hcache : R.CacheOk lib cache) :
    ∃ cache', R.CacheOk lib cache' ∧ R.gapFillers lib cache implant gap =
      .ok (R.chooseFillers (R.haveFiller1 masters) gap masters 0 [], cache') := by
  unfold gapFillers
  rw [h]
  dsimp only
  by_cases hnew : cache implant gap = []
  · rw [if_pos hnew]
    refine ⟨_, fun implant' gap' => ?_, rfl⟩
    split_ifs with hsame
    · exact Or.inr ⟨masters, by rw [hsame.1, h], by rw [hsame.2]⟩
    · exact hcache implant' gap'
  · rw [if_neg hnew]
    obtain ⟨masters', hmasters, hkept⟩ := (hcache implant gap).resolve_left hnew
    rw [h] at hmasters
    cases hmasters
    exact ⟨cache, hcache, by rw [hkept]⟩

/-! ### Covering -/

/-- A filler on whole sites covers exactly these. -/
theorem covers_iff (hsite : 0 < R.siteWidth) {inst : FillerInst} {c n i : Int}
    (hx : inst.x = R.coreXMin + c * R.siteWidth) (hwidth : inst.master.width = n * R.siteWidth) :
    R.covers i inst = true ↔ c ≤ i ∧ i < c + n := by
  unfold covers
  rw [Bool.and_eq_true, decide_eq_true_iff, decide_eq_true_iff, hx, hwidth]
  refine and_congr ?_ ?_
  · rw [Int.add_le_add_iff_left]
    exact mul_le_mul_iff_of_pos_right hsite
  · rw [Int.add_assoc, Int.add_le_add_iff_left, ← Int.add_mul,
      mul_le_mul_iff_of_pos_right hsite]
    omega

/-- The fillers placed from `k` on stand side by side. -/
theorem placeFillers_spec (hsite : 0 < R.siteWidth) (instPrefix : String) (orient : Orient)
    (masters : List FillMaster) : ∀ k,
      (∀ m ∈ masters, ∃ n, 0 < n ∧ m.width = n * R.siteWidth) →
      (∀ inst ∈ R.placeFillers instPrefix orient k masters,
        R.Aligned k (k + (masters.map R.sites).sum) inst) ∧
      ∀ i, (R.placeFillers instPrefix orient k masters).countP (R.covers i) =
        if k ≤ i ∧ i < k + (masters.map R.sites).sum then 1 else 0 := by
  induction masters with
  | nil =>
      intro k _
      refine ⟨fun inst hinst => absurd hinst List.not_mem_nil, fun i => ?_⟩
      rw [if_neg (by simp)]
      rfl
  | cons master masters ih =>
      intro k hwidths
      obtain ⟨n, hn, hwidth⟩ := hwidths master List.mem_cons_self
      have hsites := sites_of_width hsite hwidth
      obtain ⟨haligned, hcount⟩ := ih (k + R.sites master) fun m hm =>
        hwidths m (List.mem_cons_of_mem _ hm)
      have hsum : 0 ≤ (masters.map R.sites).sum := by
        refine List.sum_nonneg fun w hw => ?_
        obtain ⟨m, hm, rfl⟩ := List.mem_map.mp hw
        obtain ⟨n', hn', hwidth'⟩ := hwidths m (List.mem_cons_of_mem _ hm)
        have := sites_of_width hsite hwidth'
        omega
      rw [List.map_cons, List.sum_cons]
      refine ⟨fun inst hinst => ?_, fun i => ?_⟩
      · rcases List.mem_cons.mp hinst with rfl | hinst
        · exact ⟨k, n, hn, le_rfl, by omega, rfl, hwidth⟩
        · obtain ⟨c, n', hn', hlo, hhi, hx, hw⟩ := haligned inst hinst
          exact ⟨c, n', hn', by omega, by omega, hx, hw⟩
      · unfold placeFillers
        rw [List.countP_cons]
        have hfirst := @covers_iff R hsite ⟨instPrefix ++ toString R.row ++ "_" ++ toString k,
          master, orient, R.coreXMin + k * R.siteWidth, R.y⟩ k n i rfl hwidth
        have hrest := hcount i
        unfold sites at hrest hsites ⊢
        rw [hrest]
        by_cases hcov : k ≤ i ∧ i < k + n
        · rw [if_pos (hfirst.mpr hcov), if_neg (by omega), if_pos (by unfold sites at hsum; omega)]
        · rw [if_neg (fun h => hcov (hfirst.mp h))]
          by_cases hin : k + n ≤ i ∧ i < k + n + (masters.map R.sites).sum
          · unfold sites at hin
            rw [if_pos (by omega), if_pos (by omega)]
          · unfold sites at hin
            rw [if_neg (by omega), if_neg (by omega)]

/-! ### One run of the loop -/

/-- The fillers from `j` on, as the rest of the row is to be left. -/
structure TiledFrom (R : FillRow) (j : Int) (insts : List FillerInst) : Prop where
  aligned : ∀ inst ∈ insts, R.Aligned j R.rowSiteCount inst
  count : ∀ i, insts.countP (R.covers i) =
    if j ≤ i ∧ i < R.rowSiteCount ∧ R.isEmpty i = true then 1 else 0

/-- The loop over a site that is not to be filled. -/
theorem fillFrom_skip (instPrefix : String) (fuel : Nat) {j : Int} (hlt : j < R.rowSiteCount)
    (hempty : R.isEmpty j = false) :
    R.fillFrom instPrefix lib (fuel + 1) j cache = R.fillFrom instPrefix lib fuel (j + 1) cache := by
  rw [fillFrom, if_neg (by omega), hempty]
  rfl

/-- The loop at the start of a run. -/
theorem fillFrom_run (instPrefix : String) (fuel : Nat) {j k : Int} (hrun : R.MaximalRun j k) :
    R.fillFrom instPrefix lib (fuel + 1) j cache =
      match R.runImplant lib j k with
      | none => .error .undefined
      | some implant =>
          match R.gapFillers lib cache implant (k - j) with
          | .error e => .error e
          | .ok (fillers, cache) =>
              if fillers = [] then
                match R.gridInstName (j - 1), R.gridInstName (k + 1) with
                | some left, some right =>
                    .error (.couldNotFillGap (k - j) (R.coreXMin + j * R.siteWidth) R.y left right)
                | _, _ => .error .undefined
              else
                (R.fillFrom instPrefix lib fuel (j + (k - j)) cache).map fun rest =>
                  (R.placeFillers instPrefix (fillSite (R.pixel j)) j fillers ++ rest.1, rest.2) := by
  have hj : j < R.rowSiteCount := hrun.lt.trans_le hrun.le
  have hempty := hrun.empty j le_rfl hrun.lt
  have hend : R.runEnd (R.rowSiteCount - j).toNat j = k :=
    (maximalRun_runEnd hrun.nonneg hj hempty hrun.left).end_unique hrun
  rw [fillFrom, if_neg (by omega), hempty, if_neg (by decide), hend] <;> rfl

/-- The loop over a run that its fillers add up to. -/
theorem fillFrom_filled (hsite : 0 < R.siteWidth) (hwidths : R.WidthsOk lib)
    (instPrefix : String) (fuel : Nat) {j k : Int} (hrun : R.MaximalRun j k)
    (hfilled : R.Filled lib j k) (hcache : R.CacheOk lib cache) :
    ∃ fillers cache', R.CacheOk lib cache' ∧
      (∀ m ∈ fillers, ∃ n, 0 < n ∧ m.width = n * R.siteWidth) ∧
      (fillers.map R.sites).sum = k - j ∧
      R.fillFrom instPrefix lib (fuel + 1) j cache =
        (R.fillFrom instPrefix lib fuel k cache').map fun rest =>
          (R.placeFillers instPrefix (fillSite (R.pixel j)) j fillers ++ rest.1, rest.2) := by
  obtain ⟨implant, masters, himplant, hmasters, hrest⟩ := hfilled
  obtain ⟨cache', hcache', hgap⟩ := gapFillers_spec (k - j) hmasters hcache
  have hlt := hrun.lt
  obtain ⟨added, hadded, hmem, hsum⟩ := (R.chooseFillers_spec masters 0 [] le_rfl
    (show 0 < k - j by omega) (masters_ok hsite hwidths hmasters)).1 (by rwa [Int.sub_zero])
  rw [List.nil_append] at hadded
  rw [Int.sub_zero] at hsum
  have hne : added ≠ [] := by
    rintro rfl
    simp only [List.map_nil, List.sum_nil] at hsum
    omega
  refine ⟨added, cache', hcache', fun m hm => hwidths _ (mem_of_lookup hmasters) m (hmem m hm), hsum,
    ?_⟩
  rw [fillFrom_run instPrefix fuel hrun, himplant]
  dsimp only
  rw [hgap, hadded]
  dsimp only
  rw [if_neg hne, show j + (k - j) = k by omega]

/-- The loop over a run that its fillers do not add up to. -/
theorem fillFrom_not_filled (hsite : 0 < R.siteWidth) (hwidths : R.WidthsOk lib)
    (instPrefix : String) (fuel : Nat) {j k : Int} (hrun : R.MaximalRun j k)
    (hnot : ¬R.Filled lib j k) (hcache : R.CacheOk lib cache) {implant : Option Nat}
    (himplant : R.runImplant lib j k = some implant) :
    (∀ masters left right, lib.groups.lookup implant = some masters →
      R.gridInstName (j - 1) = some left → R.gridInstName (k + 1) = some right →
      R.fillFrom instPrefix lib (fuel + 1) j cache =
        .error (.couldNotFillGap (k - j) (R.coreXMin + j * R.siteWidth) R.y left right)) ∧
    ∀ layer, implant = some layer → lib.groups.lookup implant = none →
      R.fillFrom instPrefix lib (fuel + 1) j cache = .error (.noFillersFound layer) := by
  rw [fillFrom_run instPrefix fuel hrun, himplant]
  dsimp only
  refine ⟨fun masters left right hmasters hleft hright => ?_, fun layer heq hnone => ?_⟩
  · obtain ⟨cache', -, hgap⟩ := gapFillers_spec (k - j) hmasters hcache
    have hlt := hrun.lt
    have hempty := (R.chooseFillers_spec masters 0 [] le_rfl (show 0 < k - j by omega)
      (masters_ok hsite hwidths hmasters)).2 fun h =>
        hnot ⟨implant, masters, himplant, hmasters, by rwa [Int.sub_zero] at h⟩
    rw [hgap, hempty]
    dsimp only
    rw [if_pos rfl, hleft, hright]
  · subst heq
    unfold gapFillers
    rw [hnone]

/-! ### The row -/

/-- Where the loop may stand: not inside a run. -/
structure AtRun (R : FillRow) (lib : MasterByImplant) (fuel : Nat) (j : Int) (cache : GapFillers) :
    Prop where
  nonneg : 0 ≤ j
  le : j ≤ R.rowSiteCount
  fuel : R.rowSiteCount < j + fuel
  start : j < R.rowSiteCount → R.isEmpty j = true → j = 0 ∨ R.isEmpty (j - 1) = false
  cache : R.CacheOk lib cache

theorem AtRun.maximalRun {fuel : Nat} {j : Int} (h : AtRun R lib fuel j cache)
    (hlt : j < R.rowSiteCount) (hempty : R.isEmpty j = true) :
    R.MaximalRun j (R.runEnd (R.rowSiteCount - j).toNat j) :=
  maximalRun_runEnd h.nonneg hlt hempty (h.start hlt hempty)

theorem AtRun.skip {fuel : Nat} {j : Int} (h : AtRun R lib (fuel + 1) j cache)
    (hlt : j < R.rowSiteCount) (hempty : R.isEmpty j = false) :
    AtRun R lib fuel (j + 1) cache where
  nonneg := by have := h.nonneg; omega
  le := by omega
  fuel := by have := h.fuel; push_cast at this; omega
  start := fun _ _ => Or.inr (by rwa [Int.add_sub_cancel])
  cache := h.cache

theorem AtRun.next {fuel : Nat} {j k : Int} {cache' : GapFillers}
    (h : AtRun R lib (fuel + 1) j cache) (hrun : R.MaximalRun j k) (hcache : R.CacheOk lib cache') :
    AtRun R lib fuel k cache' where
  nonneg := hrun.nonneg.trans hrun.lt.le
  le := hrun.le
  fuel := by
    have hfuel := h.fuel
    have hlt := hrun.lt
    push_cast at hfuel
    omega
  start := fun hlt hempty => by
    rcases hrun.right with hr | hr
    · omega
    · rw [hempty] at hr
      cases hr
  cache := hcache

/-- If the fillers add up to every run from `j` on, these runs are tiled. -/
theorem fillFrom_tiled (hsite : 0 < R.siteWidth) (hwidths : R.WidthsOk lib) (instPrefix : String)
    (fuel : Nat) : ∀ j (cache : GapFillers), AtRun R lib fuel j cache →
      (∀ a k, j ≤ a → R.MaximalRun a k → R.Filled lib a k) →
      ∃ insts cache', R.fillFrom instPrefix lib fuel j cache = .ok (insts, cache') ∧
        TiledFrom R j insts := by
  induction fuel with
  | zero =>
      intro j cache hat _
      have hle := hat.le
      have hfuel := hat.fuel
      push_cast at hfuel
      omega
  | succ fuel ih =>
      intro j cache hat hfilled
      rcases hat.le.eq_or_lt with rfl | hlt
      · refine ⟨[], cache, by rw [fillFrom, if_pos le_rfl], ?_, fun i => ?_⟩
        · exact fun inst hinst => absurd hinst List.not_mem_nil
        · rw [if_neg fun h => by omega]
          rfl
      · cases hempty : R.isEmpty j with
        | false =>
            obtain ⟨insts, cache', heq, haligned, hcount⟩ := ih (j + 1) cache (hat.skip hlt hempty)
              fun a k hle => hfilled a k (by omega)
            refine ⟨insts, cache', by rw [fillFrom_skip instPrefix fuel hlt hempty, heq], ?_, ?_⟩
            · intro inst hinst
              obtain ⟨c, n, hn, hlo, hrest⟩ := haligned inst hinst
              exact ⟨c, n, hn, by omega, hrest⟩
            · intro i
              rw [hcount i]
              refine if_congr ⟨fun h => ⟨by omega, h.2⟩, fun h => ⟨?_, h.2⟩⟩ rfl rfl
              rcases h.1.eq_or_lt with rfl | hgt
              · rw [hempty] at h
                cases h.2.2
              · omega
        | true =>
            have hrun := hat.maximalRun hlt hempty
            set k := R.runEnd (R.rowSiteCount - j).toNat j
            obtain ⟨fillers, cache', hcache', hfw, hsum, hstep⟩ := fillFrom_filled hsite hwidths
              instPrefix fuel hrun (hfilled j k le_rfl hrun) hat.cache
            have hjk := hrun.lt
            obtain ⟨insts, cache'', heq, haligned, hcount⟩ := ih k cache'
              (hat.next hrun hcache') fun a k' hle => hfilled a k' (by omega)
            obtain ⟨hplaced, hplacedCount⟩ := placeFillers_spec hsite instPrefix
              (fillSite (R.pixel j)) fillers j hfw
            rw [hsum, show j + (k - j) = k by omega] at hplaced hplacedCount
            refine ⟨_, cache'', by rw [hstep, heq]; rfl, ?_, ?_⟩
            · intro inst hinst
              have hkle := hrun.le
              rcases List.mem_append.mp hinst with hinst | hinst
              · obtain ⟨c, n, hn, hlo, hhi, hrest⟩ := hplaced inst hinst
                exact ⟨c, n, hn, hlo, by omega, hrest⟩
              · obtain ⟨c, n, hn, hlo, hrest⟩ := haligned inst hinst
                exact ⟨c, n, hn, by omega, hrest⟩
            · intro i
              dsimp only
              rw [List.countP_append, hplacedCount i, hcount i]
              by_cases hin : j ≤ i ∧ i < k
              · have hkle := hrun.le
                rw [if_pos hin, if_neg (by omega),
                  if_pos ⟨hin.1, by omega, hrun.empty i hin.1 hin.2⟩]
              · rw [if_neg hin, Nat.zero_add]
                exact if_congr ⟨fun h => ⟨by omega, h.2⟩, fun h => ⟨by omega, h.2⟩⟩ rfl rfl

/-- The first run from `j` on that its fillers do not add up to stops the loop. -/
theorem fillFrom_stops (hsite : 0 < R.siteWidth) (hwidths : R.WidthsOk lib) (instPrefix : String)
    {a b : Int} (hrun : R.MaximalRun a b) (hnot : ¬R.Filled lib a b) {implant : Option Nat}
    (himplant : R.runImplant lib a b = some implant) (fuel : Nat) :
    ∀ j (cache : GapFillers), AtRun R lib fuel j cache → j ≤ a →
      (∀ j' k', j ≤ j' → k' ≤ a → R.MaximalRun j' k' → R.Filled lib j' k') →
      (∀ masters left right, lib.groups.lookup implant = some masters →
        R.gridInstName (a - 1) = some left → R.gridInstName (b + 1) = some right →
        R.fillFrom instPrefix lib fuel j cache =
          .error (.couldNotFillGap (b - a) (R.coreXMin + a * R.siteWidth) R.y left right)) ∧
      ∀ layer, implant = some layer → lib.groups.lookup implant = none →
        R.fillFrom instPrefix lib fuel j cache = .error (.noFillersFound layer) := by
  have hab := hrun.lt
  have hbCount := hrun.le
  induction fuel with
  | zero =>
      intro j cache hat _ _
      have hle := hat.le
      have hfuel := hat.fuel
      push_cast at hfuel
      omega
  | succ fuel ih =>
      intro j cache hat hja hfilled
      rcases hja.eq_or_lt with rfl | hlt
      · exact fillFrom_not_filled hsite hwidths instPrefix fuel hrun hnot hat.cache himplant
      · have hjCount : j < R.rowSiteCount := by omega
        cases hempty : R.isEmpty j with
        | false =>
            rw [fillFrom_skip instPrefix fuel hjCount hempty]
            exact ih (j + 1) cache (hat.skip hjCount hempty) (by omega) fun j' k' hle =>
              hfilled j' k' (by omega)
        | true =>
            have hfirst := hat.maximalRun hjCount hempty
            set k := R.runEnd (R.rowSiteCount - j).toNat j
            have hka := hfirst.start_of_lt hrun hlt
            have hjk := hfirst.lt
            obtain ⟨fillers, cache', hcache', -, -, hstep⟩ := fillFrom_filled hsite hwidths
              instPrefix fuel hfirst (hfilled j k le_rfl hka hfirst) hat.cache
            obtain ⟨hgap, hnone⟩ := ih k cache' (hat.next hfirst hcache') hka fun j' k' hle =>
              hfilled j' k' (by omega)
            rw [hstep]
            refine ⟨fun masters left right hmasters hleft hright => ?_, fun layer heq hlookup => ?_⟩
            · rw [hgap masters left right hmasters hleft hright]
              rfl
            · rw [hnone layer heq hlookup]
              rfl

/-- Where the loop starts. -/
theorem atRun_init (hcount : 0 ≤ R.rowSiteCount) (hcache : R.CacheOk lib cache) :
    AtRun R lib (R.rowSiteCount.toNat + 1) 0 cache where
  nonneg := le_rfl
  le := hcount
  fuel := by
    push_cast
    omega
  start := fun _ _ => Or.inl rfl
  cache := hcache

/-- If the fillers of the implant of each maximal run of empty valid sites, taken greedily, add up to
the run, each such site is covered by one filler and no other site by any. Otherwise the first run
for which they do not raises that its gap could not be filled, if its implant has fillers and the
two names of the message can be read, and that there are none, if it has none. -/
theorem placeRowFillers_spec (hsite : 0 < R.siteWidth) (hcount : 0 ≤ R.rowSiteCount)
    (hwidths : R.WidthsOk lib) (hcache : R.CacheOk lib cache) (instPrefix : String) :
    ((∀ j k, R.MaximalRun j k → R.Filled lib j k) →
      ∃ insts cache', R.placeRowFillers instPrefix lib cache = .ok (insts, cache') ∧
        R.Tiled insts) ∧
    ∀ j k implant, R.MaximalRun j k → ¬R.Filled lib j k →
      (∀ j' k', R.MaximalRun j' k' → k' ≤ j → R.Filled lib j' k') →
      R.runImplant lib j k = some implant →
      (∀ masters left right, lib.groups.lookup implant = some masters →
        R.gridInstName (j - 1) = some left → R.gridInstName (k + 1) = some right →
        R.placeRowFillers instPrefix lib cache =
          .error (.couldNotFillGap (k - j) (R.coreXMin + j * R.siteWidth) R.y left right)) ∧
      ∀ layer, implant = some layer → lib.groups.lookup implant = none →
        R.placeRowFillers instPrefix lib cache = .error (.noFillersFound layer) := by
  have hat := atRun_init hcount hcache
  constructor
  · intro hfilled
    obtain ⟨insts, cache', heq, haligned, hcovered⟩ := fillFrom_tiled hsite hwidths instPrefix _ 0
      cache hat fun a k _ => hfilled a k
    refine ⟨insts, cache', heq, haligned, fun i hlo hhi => ?_⟩
    rw [hcovered i]
    exact if_congr ⟨fun h => h.2.2, fun h => ⟨hlo, hhi, h⟩⟩ rfl rfl
  · intro j k implant hrun hnot hearlier himplant
    exact fillFrom_stops hsite hwidths instPrefix hrun hnot himplant _ 0 cache hat hrun.nonneg
      fun j' k' _ hle hrun' => hearlier j' k' hrun' hle

end FillRow

/-! ### A gap that greedy choice misses -/

def fillMaster (width : Int) : FillMaster := ⟨0, width, []⟩

/-- Fillers of five and of four sites. -/
def fiveFourFillers : MasterByImplant where
  groups := [(none, [fillMaster 50, fillMaster 40])]
  ne_nil := by decide
  sorted := by decide

/-- A row of empty sites. -/
def emptyRow (count : Int) : FillRow where
  row := 0
  coreXMin := 0
  y := 0
  siteWidth := 10
  rowSiteCount := count
  pixel := fun _ => ⟨none, true, [(10, .R0)]⟩

theorem emptyRow_run {count j k : Int} (h : (emptyRow count).MaximalRun j k) :
    j = 0 ∧ k = count := by
  refine ⟨h.left.resolve_right ?_, h.right.resolve_right ?_⟩ <;> exact Bool.noConfusion

/-- Nine empty sites are filled with five and four. -/
theorem placeRowFillers_nine : ∃ insts cache',
    (emptyRow 9).placeRowFillers "FILLER_" fiveFourFillers (fun _ _ => []) = .ok (insts, cache') ∧
      (emptyRow 9).Tiled insts := by
  refine (FillRow.placeRowFillers_spec (by decide) (by decide) ?_ (fun _ _ => Or.inl rfl)
    "FILLER_").1 ?_
  · intro group hgroup m hm
    obtain rfl := List.mem_singleton.mp hgroup
    rcases List.mem_pair.mp hm with rfl | rfl
    · exact ⟨5, by decide, by decide⟩
    · exact ⟨4, by decide, by decide⟩
  · intro j k hrun
    obtain ⟨rfl, rfl⟩ := emptyRow_run hrun
    exact ⟨none, _, rfl, rfl, by decide⟩

/-- Eight empty sites are not filled, though two fillers of four sites add up to them. -/
theorem not_placeRowFillers_complete :
    (emptyRow 8).placeRowFillers "FILLER_" fiveFourFillers (fun _ _ => []) =
      .error (.couldNotFillGap 8 0 0 "core_left" "core_right") ∧
    ([fillMaster 40, fillMaster 40].map (emptyRow 8).sites).sum = 8 ∧
    ∀ m ∈ [fillMaster 40, fillMaster 40], m ∈ [fillMaster 50, fillMaster 40] := by
  exact ⟨rfl, by decide, by decide⟩

end OpenRoad.Dpl
