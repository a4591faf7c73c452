import OpenRoad.PplGroupAssign

/-!
When the groups of a section are placed soundly. The windows of the matrix do not overlap and each
column has a row of its own, so only three things are left to chance: the size of the window, the
slots used before, and the slots of mirrored pins.
-/

namespace OpenRoad.Ppl

open Db (Point Rect)

/-! ### The slots of a window -/

section Offsets

variable {S : Section}

theorem pinOffset_lt {group : PinGroup} {k : Nat} (hk : k < group.pins.length) :
    S.pinOffset group k < group.pins.length := by
  rw [Section.pinOffset]
  split <;> omega

/-- Counted down or up, the offsets take every value once. -/
theorem pinOffset_pinOffset {group : PinGroup} {k : Nat} (hk : k < group.pins.length) :
    S.pinOffset group (S.pinOffset group k) = k := by
  rw [Section.pinOffset, Section.pinOffset]
  split <;> omega

theorem pinSlots_slots (t : Taken) :
    (S.pinSlots t).map (·.2) =
      (List.range t.group.pins.length).map fun k => t.window.start + S.pinOffset t.group k := by
  apply List.ext_getElem (by simp [Section.pinSlots])
  intro k hk hk'
  simp [Section.pinSlots]

theorem mem_pinSlots (t : Taken) (i : Nat) :
    i ∈ (S.pinSlots t).map (·.2) ↔
      t.window.start ≤ i ∧ i < t.window.start + t.group.pins.length := by
  rw [pinSlots_slots, List.mem_map]
  constructor
  · rintro ⟨k, hk, rfl⟩
    have := pinOffset_lt (S := S) (List.mem_range.mp hk)
    omega
  · rintro ⟨hge, hlt⟩
    have hk : i - t.window.start < t.group.pins.length := by omega
    refine ⟨S.pinOffset t.group (i - t.window.start), List.mem_range.mpr (pinOffset_lt hk), ?_⟩
    rw [pinOffset_pinOffset hk]
    omega

theorem pinSlots_nodup (t : Taken) : ((S.pinSlots t).map (·.2)).Nodup := by
  rw [pinSlots_slots]
  refine List.nodup_range.map_on fun a ha b hb heq => ?_
  have hab : S.pinOffset t.group a = S.pinOffset t.group b := Nat.add_left_cancel heq
  calc a = S.pinOffset t.group (S.pinOffset t.group a) :=
        (pinOffset_pinOffset (List.mem_range.mp ha)).symm
    _ = b := by rw [hab, pinOffset_pinOffset (List.mem_range.mp hb)]

/-- No slot is taken twice exactly when the runs of the groups do not overlap. -/
theorem nodup_pinSlots_iff {taken : List Taken} (hpos : ∀ t ∈ taken, 0 < t.group.pins.length) :
    ((taken.flatMap S.pinSlots).map (·.2)).Nodup ↔ taken.Pairwise fun a b =>
      a.window.start + a.group.pins.length ≤ b.window.start ∨
        b.window.start + b.group.pins.length ≤ a.window.start := by
  rw [List.map_flatMap, List.nodup_flatMap]
  have heach : ∀ t ∈ taken, ((S.pinSlots t).map (·.2)).Nodup := fun t _ => pinSlots_nodup t
  rw [and_iff_right heach]
  apply List.Pairwise.iff_of_mem
  intro a b ha hb
  have hapos := hpos a ha
  have hbpos := hpos b hb
  simp only [Function.onFun_apply, List.Disjoint, mem_pinSlots]
  constructor
  · intro hdisjoint
    by_contra hcon
    exact hdisjoint (a := max a.window.start b.window.start) ⟨by omega, by omega⟩
      ⟨by omega, by omega⟩
  · rintro hapart i ⟨hai, hia⟩ ⟨hbi, hib⟩
    omega

end Offsets

/-! ### The columns -/

section Columns

variable {S : Section} {N : Netlist} {boundary : Rect} {onlyMirrored : Bool}
  {windows : List Window} {assignment : List Int}

theorem findWindow_some {col : Nat} {window : Window}
    (h : findWindow windows assignment col = some window) :
    ∃ row : Nat, assignment[row]? = some (col : Int) ∧ windows[row]? = some window := by
  obtain ⟨row, hrow, hwindow⟩ := Option.bind_eq_some_iff.mp h
  exact ⟨row, by simpa using List.find?_some hrow, hwindow⟩

theorem placePins_append (plan rest : List (Nat × Nat)) (P : Placing) :
    S.placePins N boundary (plan ++ rest) P =
      (S.placePins N boundary plan P).bind (S.placePins N boundary rest) := by
  induction plan generalizing P with
  | nil => rfl
  | cons p plan ih =>
      obtain ⟨pin, slotIndex⟩ := p
      rw [List.cons_append, Section.placePins, Section.placePins]
      cases S.placePin N boundary P pin slotIndex with
      | error e => rfl
      | ok P₁ => exact ih P₁

theorem assignGroups_placed {group : PinGroup} {groups : List PinGroup} {col : Nat} {P : Placing}
    {out : Placing × List Taken} {window : Window} (hskip : ¬skipsGroup N onlyMirrored group = true)
    (hfind : findWindow windows assignment col = some window)
    (h : S.assignGroups N boundary onlyMirrored windows assignment (group :: groups) col P =
      .ok out) :
    ∃ P₁ rest, S.placePins N boundary (S.pinSlots ⟨group, window⟩) P = .ok P₁ ∧
      S.assignGroups N boundary onlyMirrored windows assignment groups (col + 1) P₁ = .ok rest ∧
      out = (rest.1, ⟨group, window⟩ :: rest.2) := by
  rw [Section.assignGroups, if_neg hskip] at h
  simp only [hfind] at h
  cases hpins : S.placePins N boundary (S.pinSlots ⟨group, window⟩) P with
  | error e => simp [hpins, bind, Except.bind] at h
  | ok P₁ =>
      cases hrest : S.assignGroups N boundary onlyMirrored windows assignment groups (col + 1)
          P₁ with
      | error e => simp [hpins, hrest, bind, Except.bind] at h
      | ok rest =>
          simp only [hpins, hrest, bind, Except.bind, pure, Except.pure, Except.ok.injEq] at h
          exact ⟨P₁, rest, rfl, hrest, h.symm⟩

theorem assignGroups_spec :
    ∀ (groups : List PinGroup) (col : Nat) (P : Placing) (out : Placing × List Taken),
      S.assignGroups N boundary onlyMirrored windows assignment groups col P = .ok out →
      out.2 = Section.chosen N onlyMirrored windows assignment groups col ∧
        out.2.map (·.group) = groups.filter (fun group => !skipsGroup N onlyMirrored group) ∧
        S.placePins N boundary (out.2.flatMap S.pinSlots) P = .ok out.1 := by
  intro groups
  induction groups with
  | nil =>
      intro col P out h
      obtain rfl : (P, []) = out := by simpa [Section.assignGroups] using h
      exact ⟨rfl, rfl, rfl⟩
  | cons group groups ih =>
      intro col P out h
      rw [Section.chosen]
      by_cases hskip : skipsGroup N onlyMirrored group = true
      · rw [Section.assignGroups, if_pos hskip] at h
        rw [if_pos hskip, List.filter_cons_of_neg (by simp [hskip])]
        exact ih col P out h
      · rw [if_neg hskip, List.filter_cons_of_pos (by simpa using hskip)]
        cases hfind : findWindow windows assignment col with
        | none =>
            rw [Section.assignGroups, if_neg hskip] at h
            simp [hfind] at h
        | some window =>
            obtain ⟨P₁, rest, hpins, hrest, rfl⟩ := assignGroups_placed hskip hfind h
            obtain ⟨hchosen, hgroups, hplace⟩ := ih (col + 1) P₁ rest hrest
            refine ⟨by simp [hchosen], by simp [hgroups], ?_⟩
            rw [List.flatMap_cons, placePins_append, hpins]
            exact hplace

/-- The columns are counted on, so each group has a row of its own. -/
theorem chosen_row :
    ∀ (groups : List PinGroup) (col : Nat),
      ∀ t ∈ Section.chosen N onlyMirrored windows assignment groups col,
        t.group ∈ groups ∧ ∃ c row : Nat, col ≤ c ∧ assignment[row]? = some (c : Int) ∧
          windows[row]? = some t.window := by
  intro groups
  induction groups with
  | nil => intro col t ht; exact absurd ht (by simp [Section.chosen])
  | cons group groups ih =>
      intro col t ht
      rw [Section.chosen] at ht
      split at ht
      · obtain ⟨hgroup, hrow⟩ := ih col t ht
        exact ⟨List.mem_cons_of_mem _ hgroup, hrow⟩
      · have hlater : t ∈ Section.chosen N onlyMirrored windows assignment groups (col + 1) →
            t.group ∈ group :: groups ∧ ∃ c row : Nat, col ≤ c ∧ assignment[row]? = some (c : Int) ∧
              windows[row]? = some t.window := by
          intro ht
          obtain ⟨hgroup, c, row, hc, hrow⟩ := ih (col + 1) t ht
          exact ⟨List.mem_cons_of_mem _ hgroup, c, row, Nat.le_of_succ_le hc, hrow⟩
        split at ht
        next => exact hlater ht
        next window hfind =>
          rcases List.mem_cons.mp ht with rfl | ht
          · obtain ⟨row, hrow⟩ := findWindow_some hfind
            exact ⟨List.mem_cons_self .., col, row, le_rfl, hrow⟩
          · exact hlater ht

theorem chosen_apart
    (hwindows : windows.Pairwise fun a b => a.start + a.capacity ≤ b.start) :
    ∀ (groups : List PinGroup) (col : Nat),
      (Section.chosen N onlyMirrored windows assignment groups col).Pairwise fun a b =>
        a.window.start + a.window.capacity ≤ b.window.start ∨
          b.window.start + b.window.capacity ≤ a.window.start := by
  intro groups
  induction groups with
  | nil => intro col; simp [Section.chosen]
  | cons group groups ih =>
      intro col
      rw [Section.chosen]
      split
      · exact ih col
      · split
        next => exact ih (col + 1)
        next window hfind =>
          refine List.pairwise_cons.mpr ⟨fun t ht => ?_, ih (col + 1)⟩
          obtain ⟨row, hrow, hwindow⟩ := findWindow_some hfind
          obtain ⟨-, c, row', hc, hrow', hwindow'⟩ := chosen_row groups (col + 1) t ht
          have hne : row ≠ row' := by
            rintro rfl
            have hcol : (col : Int) = c := Option.some.inj (hrow.symm.trans hrow')
            omega
          obtain ⟨hlt, rfl⟩ := List.getElem?_eq_some_iff.mp hwindow
          obtain ⟨hlt', heq⟩ := List.getElem?_eq_some_iff.mp hwindow'
          rcases Nat.lt_or_gt_of_ne hne with h | h
          · left
            exact heq ▸ List.pairwise_iff_getElem.mp hwindows row row' hlt hlt' h
          · right
            exact heq ▸ List.pairwise_iff_getElem.mp hwindows row' row hlt' hlt h

end Columns

/-! ### Sound placements -/

section Sound

variable {S : Section} {N : Netlist} {boundary : Rect} {onlyMirrored : Bool}
  {windows : List Window} {assignment : List Int} {P : Placing} {out : Placing × List Taken}

/-- What a run that returns has done: the pins are pushed in the order of the plan, on the windows
chosen, which do not overlap. -/
structure Placed (S : Section) (N : Netlist) (boundary : Rect) (onlyMirrored : Bool) (P : Placing)
    (out : Placing × List Taken) : Prop where
  groups : out.2.map (·.group) = S.groups.filter fun group => !skipsGroup N onlyMirrored group
  assignment : out.1.assignment = P.assignment ++
    (out.2.flatMap S.pinSlots).flatMap (placedOf N boundary P.slots)
  mirrors : MirrorsChecked N boundary P.slots (out.2.flatMap S.pinSlots)

theorem assignGroups_placedAll
    (h : S.assignGroups N boundary onlyMirrored windows assignment S.groups 0 P = .ok out) :
    Placed S N boundary onlyMirrored P out := by
  obtain ⟨-, hgroups, hplace⟩ := assignGroups_spec S.groups 0 P out h
  obtain ⟨hassign, -, hchecked, -⟩ := placePins_spec _ P out.1 [] (Marked.refl _) hplace
  exact ⟨hgroups, hassign, hchecked⟩

namespace Placed

theorem mem_groups (h : Placed S N boundary onlyMirrored P out) {t : Taken} (ht : t ∈ out.2) :
    t.group ∈ S.groups := by
  have hmem : t.group ∈ out.2.map (·.group) := List.mem_map_of_mem ht
  rw [h.groups] at hmem
  exact List.mem_of_mem_filter hmem

theorem pos (h : Placed S N boundary onlyMirrored P out) (hpins : ∀ g ∈ S.groups, g.pins ≠ []) :
    ∀ t ∈ out.2, 0 < t.group.pins.length :=
  fun _ ht => List.length_pos_iff.mpr (hpins _ (h.mem_groups ht))

theorem whole (h : Placed S N boundary onlyMirrored P out) {t : Taken} (ht : t ∈ out.2)
    {k pin : Nat} (hpin : t.group.pins[k]? = some pin) :
    ⟨pin, t.window.start + S.pinOffset t.group k,
      (slotAt P.slots (t.window.start + S.pinOffset t.group k)).pos,
      (slotAt P.slots (t.window.start + S.pinOffset t.group k)).layer,
      (slotAt P.slots (t.window.start + S.pinOffset t.group k)).edge⟩ ∈ out.1.assignment := by
  have hslot : (pin, t.window.start + S.pinOffset t.group k) ∈ out.2.flatMap S.pinSlots :=
    List.mem_flatMap.mpr ⟨t, ht, List.mem_map.mpr ⟨(pin, k), List.mk_mem_zipIdx_iff_getElem?.mpr hpin,
      rfl⟩⟩
  rw [h.assignment]
  exact List.mem_append_right _ (List.mem_flatMap.mpr ⟨_, hslot, List.mem_cons_self ..⟩)

theorem noOverlap_iff (h : Placed S N boundary onlyMirrored P out)
    (hpins : ∀ g ∈ S.groups, g.pins ≠ []) :
    ((out.1.assignment.drop P.assignment.length).map (·.slot)).Nodup ↔
      (out.2.Pairwise fun a b => a.window.start + a.group.pins.length ≤ b.window.start ∨
        b.window.start + b.group.pins.length ≤ a.window.start) ∧
      (out.2.flatMap S.pinSlots).Pairwise fun a b =>
        mirrorSlot N boundary P.slots a ≠ some b.2 := by
  rw [h.assignment, List.drop_left, h.mirrors.nodup_iff, nodup_pinSlots_iff (h.pos hpins)]

end Placed

theorem groupsSound_iff_fit (hpins : ∀ g ∈ S.groups, g.pins ≠ [])
    (hfree : WindowsFree (fun i => (slotAt P.slots i).blocked) S.endSlot S.beginSlot S.groupSizes
      windows)
    (h : S.assignGroups N boundary onlyMirrored windows assignment S.groups 0 P = .ok out) :
    GroupsSound S N onlyMirrored P out ↔ GroupsFit S N boundary P.slots out.2 := by
  have hplaced := assignGroups_placedAll h
  have hchosen := (assignGroups_spec S.groups 0 P out h).1
  have hwindow : ∀ t ∈ out.2, t.window ∈ windows := by
    intro t ht
    rw [hchosen] at ht
    obtain ⟨-, c, row, -, -, hrow⟩ := chosen_row S.groups 0 t ht
    exact List.mem_of_getElem? hrow
  constructor
  · intro hsound
    refine ⟨fun t ht => ?_, fun t ht k hk => ?_, ((hplaced.noOverlap_iff hpins).mp
      hsound.noOverlap).2⟩
    · -- a run of the group's size would have been taken before the smaller window
      by_contra hlt
      have hsize : t.group.pins.length ∈ S.groupSizes :=
        Section.mem_groupSizes.mpr ⟨t.group, hplaced.mem_groups ht, rfl⟩
      refine hfree.noLarger _ (hwindow t ht) _ hsize (Nat.lt_of_not_le hlt)
        ⟨(hsound.inSection t ht).2, fun k hk => ?_⟩
      have havailable := hsound.available t ht k hk
      simp only [Slot.isAvailable, Bool.and_eq_true, Bool.not_eq_true'] at havailable
      exact havailable.1
    · have havailable := hsound.available t ht k hk
      simp only [Slot.isAvailable, Bool.and_eq_true, Bool.not_eq_true'] at havailable
      exact havailable.2
  · intro hfit
    have hdisjoint : out.2.Pairwise fun a b =>
        a.window.start + a.group.pins.length ≤ b.window.start ∨
          b.window.start + b.group.pins.length ≤ a.window.start := by
      have hapart := @chosen_apart N onlyMirrored _ assignment hfree.disjoint S.groups 0
      rw [← hchosen] at hapart
      refine hapart.imp_of_mem fun {a b} ha hb hab => ?_
      have hfa := hfit.fits a ha
      have hfb := hfit.fits b hb
      omega
    refine ⟨hplaced.groups, fun t ht k pin hpin => hplaced.whole ht hpin, fun t ht => ?_,
      fun t ht k hk => ?_, hdisjoint, (hplaced.noOverlap_iff hpins).mpr ⟨hdisjoint, hfit.apart⟩⟩
    · have hrun := (hfree.free _ (hwindow t ht)).1
      have hfits := hfit.fits t ht
      exact ⟨hfree.bounds _ (hwindow t ht), by omega⟩
    · have hblocked := (hfree.free _ (hwindow t ht)).2 k (lt_of_lt_of_le hk (hfit.fits t ht))
      simp [Slot.isAvailable, hblocked, hfit.unused t ht k hk]

theorem createMatrixForGroups_ok {matrix : List (List Int)}
    (h : createMatrixForGroups N boundary P.slots S = .ok (windows, matrix)) :
    (S.groups = [] ∧ matrix = []) ∨ (windows = S.windows P.slots ∧ matrix ≠ []) := by
  rw [createMatrixForGroups] at h
  split at h
  next hnil =>
    simp only [pure, Except.pure, Except.ok.injEq, Prod.mk.injEq] at h
    exact .inl ⟨hnil, h.2.symm⟩
  next =>
    cases hcolumns : S.groups.mapM (groupColumn N boundary P.slots (S.windows P.slots)) with
    | error e => simp [hcolumns, bind, Except.bind] at h
    | ok columns =>
        simp only [hcolumns, bind, Except.bind, pure, Except.pure] at h
        split at h
        · exact absurd h (by simp [throw, throwThe, MonadExceptOf.throw])
        · next hne =>
          simp only [Except.ok.injEq, Prod.mk.injEq] at h
          obtain ⟨rfl, rfl⟩ := h
          exact .inr ⟨rfl, by simpa using hne⟩

end Sound

/-! ### A group on a window that is too small -/

/-- Slots on the bottom edge; `blocked` says which of them are blocked. -/
def bottomSlots (blocked : List Bool) : List Slot :=
  blocked.zipIdx.map fun (b, i) => ⟨b, false, ⟨10 * i, 0⟩, 1, .bottom⟩

/-- Two groups of three pins and one of two, and one net for each group. -/
def threeGroups (endSlot : Nat) : Section where
  groups := [⟨[0, 1, 2], false⟩, ⟨[3, 4, 5], false⟩, ⟨[6, 7], false⟩]
  beginSlot := 0
  endSlot := endSlot
  numSlots := 9
  edge := .bottom

def groupNets : Netlist where
  ioPin i := ⟨none, [⟨if i < 3 then 0 else if i < 6 then 60 else 40, 50⟩]⟩
  numIOGroups := 3

/-- Three free slots, twice two, and two of one: there is no run for the second group. -/
def shortSlots : Placing where
  slots := bottomSlots [false, false, false, true, false, false, true, false, false, true, true,
    false, true, false]
  nonBlockedSlots := 9
  assignment := []

def longSlots : Placing where
  slots := bottomSlots [false, false, false, false, false, false, true, false, false]
  nonBlockedSlots := 8
  assignment := []

def groupsBoundary : Rect := ⟨0, 0, 200, 100⟩

/-- `computeassignmentcost` of the solver -/
def computeAssignmentCost (matrix : List (List Int)) (assignment : List Int) : Int :=
  ((matrix.zip assignment).map fun (row, col) =>
    if 0 ≤ col then row.getD col.toNat 0 else 0).sum

end OpenRoad.Ppl
