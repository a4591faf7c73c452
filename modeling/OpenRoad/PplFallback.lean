import OpenRoad.PplGroupAssign

/-!
Groups of pins that fit no section are put on the first run of free slots that is long enough. The
run ends before the last slot of the range, and it goes on from one edge or layer to the next.
-/

namespace OpenRoad.Ppl

open Db (Point Rect)

inductive FallbackError where
  /-- error 101 -/
  | slotNotFound (pos : Point) (layer : Int)
  /-- error 91 -/
  | mirroredPosition (pos : Point) (layer : Int) (pin : Nat)
  deriving DecidableEq

/-- `IOPlacer::getSlotIdxByPosition` -/
def findSlotIdx (slots : List Slot) (position : Point) (layer : Int) :
    Except FallbackError Nat :=
  match getSlotIdxByPosition slots position layer with
  | none => .error (.slotNotFound position layer)
  | some i => .ok i

/-! ### The search -/

section Search

variable (boundary : Rect) (slots : List Slot) (checkMirrored : Bool)

/-- The slot at the mirrored position is looked up also where it is not needed. -/
def slotFree (s : Nat) : Except FallbackError Bool :=
  match findSlotIdx slots (getMirroredPosition boundary (slotAt slots s).pos)
      (slotAt slots s).layer with
  | .error e => .error e
  | .ok mirroredSlot =>
      .ok ((slotAt slots s).isAvailable && (!checkMirrored || (slotAt slots mirroredSlot).isAvailable))

/-- The inner loops: on over the slots that are not free, or that are, and at most to the last slot of
the range, with the number of slots passed. -/
def passSlots (free : Bool) (lastSlot : Int) :
    Nat → Nat → Int → Except FallbackError (Nat × Int)
  | 0, s, passed => .ok (s, passed)
  | fuel + 1, s, passed =>
      match slotFree boundary slots checkMirrored s with
      | .error e => .error e
      | .ok found =>
          if (s : Int) < lastSlot ∧ found = free then passSlots free lastSlot fuel (s + 1) (passed + 1)
          else .ok (s, passed)

/-- The outer loop, and the return value behind it. -/
def scanSlots (lastSlot : Int) (groupSize : Nat) : Nat → Nat → Int → Except FallbackError Int
  | 0, _, _ => .ok (-1)
  | fuel + 1, s, maxContiguousSlots =>
      if (s : Int) ≤ lastSlot then
        match passSlots boundary slots checkMirrored false lastSlot (slots.length + 1) s 0 with
        | .error e => .error e
        | .ok (placeSlot, _) =>
            match passSlots boundary slots checkMirrored true lastSlot (slots.length + 1) placeSlot 0 with
            | .error e => .error e
            | .ok (s, contiguousSlots) =>
                if (groupSize : Int) ≤ max maxContiguousSlots contiguousSlots then .ok placeSlot
                else scanSlots lastSlot groupSize fuel (s + 1) (max maxContiguousSlots contiguousSlots)
      else .ok (-1)

def getFirstSlotToPlaceGroup (firstSlot : Nat) (lastSlot : Int) (groupSize : Nat) :
    Except FallbackError Int :=
  scanSlots boundary slots checkMirrored lastSlot groupSize (slots.length + 1) firstSlot (-2 ^ 31)

end Search

/-! ### The placement -/

/-- The slots and the assignment while a group is placed. -/
structure Fallback where
  slots : List Slot
  assignment : List PlacedPin
  deriving DecidableEq

/-- `IOPlacer::assignMirroredPins` -/
def fallbackMirroredPin (boundary : Rect) (placed : PlacedPin) (mirrored : Nat) (F : Fallback) :
    Except FallbackError Fallback :=
  let pos := getMirroredPosition boundary placed.pos
  match findSlotIdx F.slots pos placed.layer with
  | .error e => .error e
  | .ok i =>
      if (slotAt F.slots i).used = true then .error (.mirroredPosition pos placed.layer mirrored)
      else .ok ⟨markUsed F.slots i,
        F.assignment ++ [⟨mirrored, i, pos, placed.layer, getMirroredEdge placed.edge⟩]⟩

section Placement

variable (N : Netlist) (boundary : Rect)

def placeFallbackPin (F : Fallback) (pin placeSlot : Nat) : Except FallbackError Fallback :=
  let slot := slotAt F.slots placeSlot
  let placed : PlacedPin := ⟨pin, placeSlot, slot.pos, slot.layer, slot.edge⟩
  let F' : Fallback := ⟨markTaken F.slots placeSlot, F.assignment ++ [placed]⟩
  match (N.ioPin pin).mirrored with
  | some mirrored => fallbackMirroredPin boundary placed mirrored F'
  | none => .ok F'

def placeFallbackPins : List (Nat × Nat) → Fallback → Except FallbackError Fallback
  | [], F => .ok F
  | (pin, placeSlot) :: rest, F =>
      match placeFallbackPin N boundary F pin placeSlot with
      | .error e => .error e
      | .ok F => placeFallbackPins rest F

/-- The pins with their slots: on the top and left edges the last pin comes first. -/
def fallbackPlan (slots : List Slot) (pins : List Nat) (placeSlot : Nat) : List (Nat × Nat) :=
  let edge := (slotAt slots placeSlot).edge
  let order := if edge = .top ∨ edge = .left then pins.reverse else pins
  order.zipIdx.map fun (pin, i) => (pin, placeSlot + i)

def placeFallbackGroup (F : Fallback) (group : PinGroup) (placeSlot : Nat) :
    Except FallbackError Fallback :=
  placeFallbackPins N boundary (fallbackPlan F.slots group.pins placeSlot) F

end Placement

/-! ### What the search finds -/

section Found

variable (boundary : Rect) (slots : List Slot) (checkMirrored : Bool)

/-- The slot is free, and so is the slot at its mirrored position where that is asked for. -/
def FreeSlot (s : Nat) : Prop := slotFree boundary slots checkMirrored s = .ok true

/-- There is a slot at the mirrored position. -/
def HasMirror (s : Nat) : Prop := ∃ free, slotFree boundary slots checkMirrored s = .ok free

/-- Free slots from `start` to before `stop`. -/
def FreeSlots (start stop : Nat) : Prop :=
  ∀ s, start ≤ s → s < stop → FreeSlot boundary slots checkMirrored s

variable {boundary slots checkMirrored}

/-- How an inner loop ends: at a slot of the other kind or at the last one, or with the error of a
slot that has no slot at its mirrored position. -/
theorem passSlots_spec (free : Bool) {lastSlot : Int} :
    ∀ (fuel s : Nat) (passed : Int), (s : Int) ≤ lastSlot → lastSlot < s + fuel →
      (∃ s', passSlots boundary slots checkMirrored free lastSlot fuel s passed =
          .ok (s', passed + (s' - s)) ∧ s ≤ s' ∧ (s' : Int) ≤ lastSlot ∧
        (∀ t, s ≤ t → t < s' → slotFree boundary slots checkMirrored t = .ok free) ∧
        HasMirror boundary slots checkMirrored s' ∧
        ((s' : Int) = lastSlot ∨ slotFree boundary slots checkMirrored s' = .ok !free)) ∨
      ∃ t e, passSlots boundary slots checkMirrored free lastSlot fuel s passed = .error e ∧
        s ≤ t ∧ (t : Int) ≤ lastSlot ∧ ¬HasMirror boundary slots checkMirrored t ∧
        ∀ u, s ≤ u → u < t → slotFree boundary slots checkMirrored u = .ok free := by
  intro fuel
  induction fuel with
  | zero =>
      intro s passed hle hfuel
      omega
  | succ fuel ih =>
      intro s passed hle hfuel
      rw [passSlots]
      cases hslot : slotFree boundary slots checkMirrored s with
      | error e =>
          refine Or.inr ⟨s, e, rfl, le_rfl, hle, ?_, fun u hu hu' => by omega⟩
          rintro ⟨b, hb⟩
          rw [hslot] at hb
          cases hb
      | ok found =>
          dsimp only
          split_ifs with hgo
          · have hextend : ∀ {r}, (∀ t, s + 1 ≤ t → t < r →
                slotFree boundary slots checkMirrored t = .ok free) →
                ∀ t, s ≤ t → t < r → slotFree boundary slots checkMirrored t = .ok free := by
              intro r hall t hst htr
              rcases hst.eq_or_lt with rfl | hlt
              · rw [hslot, hgo.2]
              · exact hall t hlt htr
            rcases ih (s + 1) (passed + 1) (by omega) (by omega) with
              ⟨s', hrun, hs', hlast, hall, hstop⟩ | ⟨t, e, hrun, ht, hlast, hfail, hall⟩
            · refine Or.inl ⟨s', ?_, by omega, hlast, hextend hall, hstop⟩
              rw [hrun]
              congr 2
              omega
            · exact Or.inr ⟨t, e, hrun, by omega, hlast, hfail, hextend hall⟩
          · refine Or.inl ⟨s, by simp, le_rfl, hle, fun t ht ht' => by omega, ⟨found, hslot⟩, ?_⟩
            by_cases hlast : (s : Int) = lastSlot
            · exact Or.inl hlast
            · refine Or.inr ?_
              rw [hslot]
              have hne : found ≠ free := fun h => hgo ⟨by omega, h⟩
              cases found <;> cases free <;> simp_all

/-- How the search ends. -/
inductive Search (boundary : Rect) (slots : List Slot) (checkMirrored : Bool) (firstSlot : Nat)
    (lastSlot : Int) (groupSize : Nat) : Except FallbackError Int → Prop where
  /-- The first long enough run of free slots, from `start` to before `stop`. -/
  | found (start stop : Nat) (hfirst : firstSlot ≤ start) (hsize : start + groupSize ≤ stop)
      (hlast : (stop : Int) ≤ lastSlot) (hfree : FreeSlots boundary slots checkMirrored start stop)
      (hleast : ∀ q, firstSlot ≤ q → q < start → ((q + groupSize : Nat) : Int) ≤ lastSlot →
        ¬FreeSlots boundary slots checkMirrored q (q + groupSize))
      (hmirror : ∀ t, firstSlot ≤ t → t ≤ stop → HasMirror boundary slots checkMirrored t)
      (hstop : (stop : Int) = lastSlot ∨ slotFree boundary slots checkMirrored stop = .ok false) :
      Search boundary slots checkMirrored firstSlot lastSlot groupSize (.ok start)
  | missing
      (hnone : ∀ q, firstSlot ≤ q → ((q + groupSize : Nat) : Int) ≤ lastSlot →
        ¬FreeSlots boundary slots checkMirrored q (q + groupSize))
      (hmirror : ∀ t, firstSlot ≤ t → (t : Int) ≤ lastSlot →
        HasMirror boundary slots checkMirrored t) :
      Search boundary slots checkMirrored firstSlot lastSlot groupSize (.ok (-1))
  /-- A slot without a mirrored slot is met before a run has ended. -/
  | failed (t : Nat) (e : FallbackError) (hfirst : firstSlot ≤ t) (hlast : (t : Int) ≤ lastSlot)
      (hmirror : ¬HasMirror boundary slots checkMirrored t)
      (hbefore : ∀ start stop, firstSlot ≤ start → start + groupSize ≤ stop → stop < t →
        FreeSlots boundary slots checkMirrored start stop →
        slotFree boundary slots checkMirrored stop = .ok true) :
      Search boundary slots checkMirrored firstSlot lastSlot groupSize (.error e)

/-- The outer loop, where no run that is long enough begins before `s` and none is cut by `s`. -/
theorem scanSlots_search {firstSlot groupSize : Nat} {lastSlot : Int} (hsize : 0 < groupSize)
    (hlast : lastSlot < slots.length) :
    ∀ (fuel s : Nat) (maxContiguousSlots : Int), firstSlot ≤ s → lastSlot < s + fuel →
      maxContiguousSlots < groupSize →
      (∀ t, firstSlot ≤ t → t < s → (t : Int) ≤ lastSlot → HasMirror boundary slots checkMirrored t) →
      (∀ q, firstSlot ≤ q → q < s → ((q + groupSize : Nat) : Int) ≤ lastSlot →
        ¬FreeSlots boundary slots checkMirrored q (q + groupSize)) →
      Search boundary slots checkMirrored firstSlot lastSlot groupSize
        (scanSlots boundary slots checkMirrored lastSlot groupSize fuel s maxContiguousSlots) := by
  intro fuel
  induction fuel with
  | zero =>
      intro s maxContiguousSlots hs hfuel hmax hmirror hnone
      refine .missing (fun q hq hle => hnone q hq ?_ hle) fun t ht hle => hmirror t ht ?_ hle
      all_goals omega
  | succ fuel ih =>
      intro s maxContiguousSlots hs hfuel hmax hmirror hnone
      rw [scanSlots]
      by_cases hend : (s : Int) ≤ lastSlot
      swap
      · rw [if_neg hend]
        refine .missing (fun q hq hle => hnone q hq ?_ hle) fun t ht hle => hmirror t ht ?_ hle
        all_goals omega
      rw [if_pos hend]
      -- A run that ends before a slot of the stretch of taken slots begins before `s`.
      have htaken : ∀ {r}, (∀ u, s ≤ u → u < r → slotFree boundary slots checkMirrored u = .ok false) →
          ∀ q, firstSlot ≤ q → q < r → ((q + groupSize : Nat) : Int) ≤ lastSlot →
            ¬FreeSlots boundary slots checkMirrored q (q + groupSize) := by
        intro r hall q hq hqr hle hfree
        rcases Nat.lt_or_ge q s with hlt | hge
        · exact hnone q hq hlt hle hfree
        · have hq' := hfree q le_rfl (by omega)
          rw [FreeSlot, hall q hge hqr] at hq'
          cases hq'
      rcases @passSlots_spec boundary slots checkMirrored false lastSlot (slots.length + 1) s 0 hend
          (by omega) with
        ⟨placeSlot, hrun, hsp, hplace, htakenAll, hmirrorPlace, hstop⟩ |
        ⟨t, e, hrun, hst, htl, hfail, htakenAll⟩
      swap
      · rw [hrun]
        refine .failed t e (by omega) htl hfail fun start stop hstart hstop hst' hfree => ?_
        exact absurd (fun u hu hu' => hfree u hu (by omega))
          (htaken htakenAll start hstart (by omega) (by omega))
      rw [hrun]
      dsimp only
      have hmirrored : ∀ t, firstSlot ≤ t → t ≤ placeSlot →
          HasMirror boundary slots checkMirrored t := by
        intro t ht htp
        rcases Nat.lt_or_ge t s with hlt | hge
        · exact hmirror t ht hlt (by omega)
        · rcases htp.eq_or_lt with rfl | hlt
          · exact hmirrorPlace
          · exact ⟨_, htakenAll t hge hlt⟩
      rcases @passSlots_spec boundary slots checkMirrored true lastSlot (slots.length + 1) placeSlot
          0 hplace (by omega) with
        ⟨stop, hcount, hps, hstopLast, hfree, hmirrorStop, hend'⟩ |
        ⟨t, e, hcount, hpt, htl, hfail, hfree⟩
      swap
      · rw [hcount]
        refine .failed t e (by omega) htl hfail fun start stop hstart hsize' hst' hrun' => ?_
        rcases Nat.lt_or_ge start placeSlot with hlt | hge
        · exact absurd (fun u hu hu' => hrun' u hu (by omega))
            (htaken htakenAll start hstart hlt (by omega))
        · exact hfree stop (by omega) hst'
      rw [hcount]
      dsimp only
      split_ifs with hlong
      · have hsize' : placeSlot + groupSize ≤ stop := by omega
        refine .found placeSlot stop (by omega) hsize' hstopLast hfree
          (fun q hq hlt hle => htaken htakenAll q hq hlt hle) (fun t ht hts => ?_) hend'
        rcases Nat.lt_or_ge t placeSlot with hlt | hge
        · exact hmirrored t ht hlt.le
        · rcases hts.eq_or_lt with rfl | hlt
          · exact hmirrorStop
          · exact ⟨_, hfree t hge hlt⟩
      · have hshort : stop < placeSlot + groupSize := by omega
        refine ih (stop + 1) _ (by omega) (by omega) (by omega) (fun t ht hts htl => ?_)
          fun q hq hqs hle hrun' => ?_
        · rcases Nat.lt_or_ge t placeSlot with hlt | hge
          · exact hmirrored t ht hlt.le
          · rcases (Nat.lt_succ_iff.mp hts).eq_or_lt with rfl | hlt
            · exact hmirrorStop
            · exact ⟨_, hfree t hge hlt⟩
        · rcases Nat.lt_or_ge q placeSlot with hlt | hge
          · exact htaken htakenAll q hq hlt hle hrun'
          -- The run would go on over the slot at which the loop has stopped.
          · have hat := hrun' stop (by omega) (by omega)
            rcases hend' with hlast' | hnot
            · omega
            · rw [FreeSlot, hnot] at hat
              cases hat

theorem getFirstSlotToPlaceGroup_search {firstSlot groupSize : Nat} {lastSlot : Int}
    (hsize : 0 < groupSize) (hlast : lastSlot < slots.length) :
    Search boundary slots checkMirrored firstSlot lastSlot groupSize
      (getFirstSlotToPlaceGroup boundary slots checkMirrored firstSlot lastSlot groupSize) :=
  scanSlots_search hsize hlast _ _ _ le_rfl (by omega) (by omega) (fun t ht ht' => by omega)
    fun q hq hq' => by omega

end Found

end OpenRoad.Ppl

/-!
The placement of a group in fallback mode on the slots that the search has found, and when the two
together do what they are for.
-/

namespace OpenRoad.Ppl

open Db (Point Rect)

section Place

variable {N : Netlist} {boundary : Rect} {slots : List Slot}

/-- A mirrored slot is there and can be taken after the pins before. -/
def MirrorFree (N : Netlist) (boundary : Rect) (slots : List Slot) (p : Nat × Nat) : Prop :=
  (N.ioPin p.1).mirrored.isSome = true →
    ∃ i, mirrorSlot N boundary slots p = some i ∧ (slotAt slots i).used = false

/-- The slots once the pin itself is on its slot. -/
theorem Marked.own {F : Fallback} {placed : List PlacedPin} (hmarked : Marked slots F.slots placed)
    (pin placeSlot : Nat) :
    Marked slots (markTaken F.slots placeSlot) (placed ++ [⟨pin, placeSlot,
      (slotAt slots placeSlot).pos, (slotAt slots placeSlot).layer,
      (slotAt slots placeSlot).edge⟩]) :=
  hmarked.modify ⟨pin, placeSlot, _, _, _⟩
    (f := fun s => { s with used := true, blocked := true }) fun _ => ⟨rfl, rfl, rfl, rfl⟩

/-- What a pin placed without an error has pushed. -/
theorem placeFallbackPin_spec {F F' : Fallback} {placed : List PlacedPin} {pin placeSlot : Nat}
    (hmarked : Marked slots F.slots placed)
    (h : placeFallbackPin N boundary F pin placeSlot = .ok F') :
    F'.assignment = F.assignment ++ placedOf N boundary slots (pin, placeSlot) ∧
      Marked slots F'.slots (placed ++ placedOf N boundary slots (pin, placeSlot)) := by
  have hown := hmarked.own pin placeSlot
  simp only [placeFallbackPin, hmarked.pos, hmarked.layer, hmarked.edge] at h
  cases hmirrored : (N.ioPin pin).mirrored with
  | none =>
      simp only [hmirrored, Except.ok.injEq] at h
      subst h
      exact ⟨by simp [placedOf, hmirrored], by simpa [placedOf, hmirrored] using hown⟩
  | some mirrored =>
      have hslot : mirrorSlot N boundary slots (pin, placeSlot) = getSlotIdxByPosition slots
          (getMirroredPosition boundary (slotAt slots placeSlot).pos)
          (slotAt slots placeSlot).layer := by
        simp [mirrorSlot, hmirrored]
      simp only [hmirrored, fallbackMirroredPin, findSlotIdx, hown.getSlotIdx, ← hslot] at h
      cases hi : mirrorSlot N boundary slots (pin, placeSlot) with
      | none =>
          rw [hi] at h
          cases h
      | some i =>
          rw [hi] at h
          dsimp only at h
          split_ifs at h
          rw [Except.ok.injEq] at h
          subst h
          have hboth := hown.modify ⟨mirrored, i,
            getMirroredPosition boundary (slotAt slots placeSlot).pos,
            (slotAt slots placeSlot).layer, getMirroredEdge (slotAt slots placeSlot).edge⟩
            (f := fun s => { s with used := true }) fun s => ⟨rfl, rfl, rfl, rfl⟩
          exact ⟨by simp [placedOf, hmirrored, hi],
            by simpa [placedOf, hmirrored, hi, markUsed] using hboth⟩

/-- One pin with its mirrored pin, where their slots are not those of pins before. -/
theorem placeFallbackPin_ok {F : Fallback} {placed : List PlacedPin} {pin placeSlot : Nat}
    (hmarked : Marked slots F.slots placed) (hfree : MirrorFree N boundary slots (pin, placeSlot))
    (hnodup : (placed.map (·.slot) ++
      (placedOf N boundary slots (pin, placeSlot)).map (·.slot)).Nodup) :
    ∃ F', placeFallbackPin N boundary F pin placeSlot = .ok F' := by
  have hown := hmarked.own pin placeSlot
  simp only [placeFallbackPin, hmarked.pos, hmarked.layer, hmarked.edge]
  cases hmirrored : (N.ioPin pin).mirrored with
  | none => exact ⟨_, rfl⟩
  | some mirrored =>
      obtain ⟨i, hi, hunused⟩ := hfree (by simp [hmirrored])
      have hslot : mirrorSlot N boundary slots (pin, placeSlot) = getSlotIdxByPosition slots
          (getMirroredPosition boundary (slotAt slots placeSlot).pos)
          (slotAt slots placeSlot).layer := by
        simp [mirrorSlot, hmirrored]
      have hnot : (slotAt (markTaken F.slots placeSlot) i).used ≠ true := by
        rw [placedOf_slots, hi] at hnodup
        rw [Ne, hown.used i (mirrorSlot_lt hi), hunused]
        simp only [List.map_append, List.map_cons, List.map_nil, List.mem_append,
          List.mem_singleton, Bool.false_eq_true, false_or, not_or]
        obtain ⟨-, hpair, hdisjoint⟩ := List.nodup_append.mp hnodup
        constructor
        · intro hmem
          exact hdisjoint i hmem i (by simp) rfl
        · rintro rfl
          simp at hpair
      simp only [fallbackMirroredPin, findSlotIdx, hown.getSlotIdx, ← hslot, hi]
      rw [if_neg hnot]
      exact ⟨_, rfl⟩

/-- What a group placed without an error has pushed. -/
theorem placeFallbackPins_spec :
    ∀ (plan : List (Nat × Nat)) (F F' : Fallback) (placed : List PlacedPin),
      Marked slots F.slots placed → placeFallbackPins N boundary plan F = .ok F' →
      F'.assignment = F.assignment ++ plan.flatMap (placedOf N boundary slots) ∧
        Marked slots F'.slots (placed ++ plan.flatMap (placedOf N boundary slots)) := by
  intro plan
  induction plan with
  | nil =>
      intro F F' placed hmarked h
      obtain rfl : F = F' := Except.ok.inj h
      exact ⟨by simp, by simpa using hmarked⟩
  | cons p plan ih =>
      intro F F' placed hmarked h
      obtain ⟨pin, placeSlot⟩ := p
      rw [placeFallbackPins] at h
      cases hpin : placeFallbackPin N boundary F pin placeSlot with
      | error e =>
          rw [hpin] at h
          cases h
      | ok F₁ =>
          rw [hpin] at h
          obtain ⟨hassign, hmarked₁⟩ := placeFallbackPin_spec hmarked hpin
          obtain ⟨hassign', hmarked'⟩ := ih F₁ F' _ hmarked₁ h
          rw [List.flatMap_cons, ← List.append_assoc, ← List.append_assoc, hassign', hassign]
          exact ⟨rfl, hmarked'⟩

theorem placeFallbackPins_ok :
    ∀ (plan : List (Nat × Nat)) (F : Fallback) (placed : List PlacedPin),
      Marked slots F.slots placed → (∀ p ∈ plan, MirrorFree N boundary slots p) →
      (placed.map (·.slot) ++ (plan.flatMap (placedOf N boundary slots)).map (·.slot)).Nodup →
      ∃ F', placeFallbackPins N boundary plan F = .ok F' := by
  intro plan
  induction plan with
  | nil =>
      intro F placed hmarked hfree hnodup
      exact ⟨F, rfl⟩
  | cons p plan ih =>
      intro F placed hmarked hfree hnodup
      obtain ⟨pin, placeSlot⟩ := p
      rw [List.flatMap_cons, List.map_append, ← List.append_assoc] at hnodup
      obtain ⟨F₁, hpin⟩ := placeFallbackPin_ok hmarked (hfree _ (List.mem_cons_self ..))
        (List.nodup_append.mp hnodup).1
      rw [placeFallbackPins, hpin]
      exact ih F₁ _ (placeFallbackPin_spec hmarked hpin).2
        (fun q hq => hfree q (List.mem_cons_of_mem _ hq)) (by rw [List.map_append]; exact hnodup)

/-! ### The plan of a group -/

theorem zipIdx_plan_slots (order : List Nat) (placeSlot : Nat) :
    (order.zipIdx.map fun (pin, i) => (pin, placeSlot + i)).map (·.2) =
      List.range' placeSlot order.length := by
  calc
    _ = (order.zipIdx.map Prod.snd).map (placeSlot + ·) := by
      rw [List.map_map, List.map_map]
      rfl
    _ = List.range' placeSlot order.length := by
      rw [List.zipIdx_map_snd, ← List.range_eq_range', ← List.range'_eq_map_range]

theorem zipIdx_plan_pins (order : List Nat) (placeSlot : Nat) :
    (order.zipIdx.map fun (pin, i) => (pin, placeSlot + i)).map (·.1) = order := by
  calc
    _ = order.zipIdx.map Prod.fst := by
      rw [List.map_map]
      rfl
    _ = order := List.zipIdx_map_fst 0 order

theorem fallbackPlan_slots (pins : List Nat) (placeSlot : Nat) :
    (fallbackPlan slots pins placeSlot).map (·.2) = List.range' placeSlot pins.length := by
  unfold fallbackPlan
  dsimp only
  rw [zipIdx_plan_slots]
  split_ifs
  · rw [List.length_reverse]
  · rfl

theorem fallbackPlan_pins (pins : List Nat) (placeSlot : Nat) :
    ((fallbackPlan slots pins placeSlot).map (·.1)).Perm pins := by
  unfold fallbackPlan
  dsimp only
  rw [zipIdx_plan_pins]
  split_ifs
  · exact List.reverse_perm pins
  · exact List.Perm.refl pins

theorem mem_fallbackPlan_slot {pins : List Nat} {placeSlot : Nat} {q : Nat × Nat}
    (hq : q ∈ fallbackPlan slots pins placeSlot) :
    placeSlot ≤ q.2 ∧ q.2 < placeSlot + pins.length := by
  have hmem : q.2 ∈ (fallbackPlan slots pins placeSlot).map (·.2) := List.mem_map_of_mem hq
  rw [fallbackPlan_slots, List.mem_range'_1] at hmem
  exact hmem

end Place

/-! ### What is claimed -/

/-- `groupSize` consecutive slots of the range on one edge and layer that are free, and whose
mirrored slots are free where that is asked for. -/
structure FreeWindow (boundary : Rect) (slots : List Slot) (checkMirrored : Bool) (firstSlot : Nat)
    (lastSlot : Int) (groupSize start : Nat) : Prop where
  first_le : firstSlot ≤ start
  le_last : ((start + groupSize : Nat) : Int) ≤ lastSlot + 1
  available : ∀ i < groupSize, (slotAt slots (start + i)).isAvailable = true
  oneSide : ∀ i < groupSize, (slotAt slots (start + i)).edge = (slotAt slots start).edge ∧
    (slotAt slots (start + i)).layer = (slotAt slots start).layer
  mirrored : checkMirrored = true → ∀ i < groupSize, ∃ m, getSlotIdxByPosition slots
    (getMirroredPosition boundary (slotAt slots (start + i)).pos)
    (slotAt slots (start + i)).layer = some m ∧ (slotAt slots m).isAvailable = true

/-- The pins of the group are on the slots from `start` on, one each, and no slot is taken twice. -/
structure GroupPlaced (F F' : Fallback) (pins : List Nat) (start : Nat) : Prop where
  whole : ∃ plan : List (Nat × Nat), (plan.map (·.1)).Perm pins ∧
    plan.map (·.2) = List.range' start pins.length ∧
    ∀ q ∈ plan, (⟨q.1, q.2, (slotAt F.slots q.2).pos, (slotAt F.slots q.2).layer,
      (slotAt F.slots q.2).edge⟩ : PlacedPin) ∈ F'.assignment
  taken : ∀ i < pins.length, (slotAt F'.slots (start + i)).isAvailable = false
  noOverlap : ((F'.assignment.drop F.assignment.length).map (·.slot)).Nodup

/-- The search finds a window where there is one, and the group is placed there. -/
def FallbackRight (N : Netlist) (boundary : Rect) (F : Fallback) (checkMirrored : Bool)
    (firstSlot : Nat) (lastSlot : Int) (group : PinGroup) : Prop :=
  ∃ place, getFirstSlotToPlaceGroup boundary F.slots checkMirrored firstSlot lastSlot
      group.pins.length = .ok place ∧
    ((place = -1 ∧ ∀ start, ¬FreeWindow boundary F.slots checkMirrored firstSlot lastSlot
        group.pins.length start) ∨
      ∃ start : Nat, place = start ∧
        FreeWindow boundary F.slots checkMirrored firstSlot lastSlot group.pins.length start ∧
        ∃ F', placeFallbackGroup N boundary F group start = .ok F' ∧
          GroupPlaced F F' group.pins start)

/-- The first free slots in a row that end before the last slot of the range. -/
structure FirstRun (boundary : Rect) (slots : List Slot) (checkMirrored : Bool) (firstSlot : Nat)
    (lastSlot : Int) (groupSize start : Nat) : Prop where
  first_le : firstSlot ≤ start
  le_last : ((start + groupSize : Nat) : Int) ≤ lastSlot
  free : FreeSlots boundary slots checkMirrored start (start + groupSize)
  least : ∀ q, firstSlot ≤ q → q < start →
    ¬FreeSlots boundary slots checkMirrored q (q + groupSize)

/-- When the fallback does what it is for. -/
structure FallbackFits (N : Netlist) (boundary : Rect) (slots : List Slot) (checkMirrored : Bool)
    (firstSlot : Nat) (lastSlot : Int) (pins : List Nat) : Prop where
  /-- Up to the end of the first run that is long enough, every slot has a mirrored slot. -/
  mirrors : ∀ t, firstSlot ≤ t → (t : Int) ≤ lastSlot →
    (∀ start stop, firstSlot ≤ start → start + pins.length ≤ stop → stop < t →
      FreeSlots boundary slots checkMirrored start stop →
      FreeSlot boundary slots checkMirrored stop) →
    HasMirror boundary slots checkMirrored t
  /-- The first run does not go around a corner, and the slots of the pins and of their mirrored
  pins there are all different. -/
  first : ∀ start, FirstRun boundary slots checkMirrored firstSlot lastSlot pins.length start →
    (∀ i < pins.length, (slotAt slots (start + i)).edge = (slotAt slots start).edge ∧
      (slotAt slots (start + i)).layer = (slotAt slots start).layer) ∧
    (((fallbackPlan slots pins start).flatMap (placedOf N boundary slots)).map (·.slot)).Nodup
  /-- Without a run, the slots at the end of the range are not a window. -/
  last : (∀ start, ¬FirstRun boundary slots checkMirrored firstSlot lastSlot pins.length start) →
    ∀ start, ((start + pins.length : Nat) : Int) = lastSlot + 1 →
      ¬FreeWindow boundary slots checkMirrored firstSlot lastSlot pins.length start

/-! ### When it is met -/

section Met

variable {N : Netlist} {boundary : Rect} {slots : List Slot} {checkMirrored : Bool}
  {firstSlot : Nat} {lastSlot : Int}

theorem freeSlot_iff {s : Nat} :
    FreeSlot boundary slots checkMirrored s ↔
      ∃ m, getSlotIdxByPosition slots (getMirroredPosition boundary (slotAt slots s).pos)
          (slotAt slots s).layer = some m ∧ (slotAt slots s).isAvailable = true ∧
        (checkMirrored = true → (slotAt slots m).isAvailable = true) := by
  unfold FreeSlot slotFree findSlotIdx
  cases getSlotIdxByPosition slots (getMirroredPosition boundary (slotAt slots s).pos)
      (slotAt slots s).layer with
  | none => simp
  | some m => cases checkMirrored <;> simp

theorem hasMirror_iff {s : Nat} :
    HasMirror boundary slots checkMirrored s ↔
      ∃ m, getSlotIdxByPosition slots (getMirroredPosition boundary (slotAt slots s).pos)
        (slotAt slots s).layer = some m := by
  unfold HasMirror slotFree findSlotIdx
  cases getSlotIdxByPosition slots (getMirroredPosition boundary (slotAt slots s).pos)
      (slotAt slots s).layer with
  | none => simp
  | some m => simp

/-- A window of slots that all have mirrored slots is a run of free slots. -/
theorem FreeWindow.freeSlots {groupSize start : Nat}
    (h : FreeWindow boundary slots checkMirrored firstSlot lastSlot groupSize start)
    (hmirror : ∀ t, firstSlot ≤ t → (t : Int) ≤ lastSlot → HasMirror boundary slots checkMirrored t) :
    FreeSlots boundary slots checkMirrored start (start + groupSize) := by
  intro s hs hs'
  have hfirst := h.first_le
  have hlast := h.le_last
  obtain ⟨i, rfl⟩ := Nat.exists_eq_add_of_le hs
  obtain ⟨m, hm⟩ := hasMirror_iff.mp (hmirror (start + i) (by omega) (by omega))
  refine freeSlot_iff.mpr ⟨m, hm, h.available i (by omega), fun hcheck => ?_⟩
  obtain ⟨m', hm', hfree⟩ := h.mirrored hcheck i (by omega)
  rw [hm] at hm'
  exact Option.some.inj hm' ▸ hfree

/-- A run of free slots on one edge and layer is a window. -/
theorem freeWindow_of_freeSlots {groupSize start : Nat} (hfirst : firstSlot ≤ start)
    (hlast : ((start + groupSize : Nat) : Int) ≤ lastSlot + 1)
    (hfree : FreeSlots boundary slots checkMirrored start (start + groupSize))
    (hside : ∀ i < groupSize, (slotAt slots (start + i)).edge = (slotAt slots start).edge ∧
      (slotAt slots (start + i)).layer = (slotAt slots start).layer) :
    FreeWindow boundary slots checkMirrored firstSlot lastSlot groupSize start := by
  have hslot : ∀ i < groupSize, _ := fun i hi => freeSlot_iff.mp (hfree (start + i) (by omega) (by omega))
  refine ⟨hfirst, hlast, fun i hi => ?_, hside, fun hcheck i hi => ?_⟩
  · obtain ⟨m, -, havail, -⟩ := hslot i hi
    exact havail
  · obtain ⟨m, hm, -, hmirror⟩ := hslot i hi
    exact ⟨m, hm, hmirror hcheck⟩

/-- Where the slots of the pins and the mirrored pins are all different, the group is placed. -/
theorem placeFallbackGroup_placed {F : Fallback} {group : PinGroup} {start : Nat}
    (hcheck : N.groupHasMirroredPin group = true → checkMirrored = true)
    (hwindow : FreeWindow boundary F.slots checkMirrored firstSlot lastSlot group.pins.length start)
    (hlast : lastSlot < F.slots.length)
    (hnodup : (((fallbackPlan F.slots group.pins start).flatMap
      (placedOf N boundary F.slots)).map (·.slot)).Nodup) :
    ∃ F', placeFallbackGroup N boundary F group start = .ok F' ∧
      GroupPlaced F F' group.pins start := by
  have hle := hwindow.le_last
  have hfree : ∀ p ∈ fallbackPlan F.slots group.pins start, MirrorFree N boundary F.slots p := by
    intro p hp hmirrored
    obtain ⟨hge, hlt⟩ := mem_fallbackPlan_slot hp
    obtain ⟨i, hi⟩ := Nat.exists_eq_add_of_le hge
    have hpin : p.1 ∈ group.pins :=
      (fallbackPlan_pins group.pins start).mem_iff.mp (List.mem_map_of_mem hp)
    obtain ⟨m, hm, havail⟩ := hwindow.mirrored
      (hcheck (List.any_eq_true.mpr ⟨p.1, hpin, hmirrored⟩)) i (by omega)
    refine ⟨m, ?_, ?_⟩
    · rw [mirrorSlot, if_pos hmirrored, hi]
      exact hm
    · cases hused : (slotAt F.slots m).used
      · rfl
      · simp [Slot.isAvailable, hused] at havail
  obtain ⟨F', hplaced⟩ := placeFallbackPins_ok (fallbackPlan F.slots group.pins start) F []
    (Marked.refl F.slots) hfree (by simpa using hnodup)
  obtain ⟨hassign, hmarked⟩ := placeFallbackPins_spec _ F F' [] (Marked.refl F.slots) hplaced
  refine ⟨F', hplaced, ⟨⟨fallbackPlan F.slots group.pins start, fallbackPlan_pins _ _,
    fallbackPlan_slots _ _, fun q hq => ?_⟩, fun i hi => ?_, ?_⟩⟩
  · rw [hassign]
    exact List.mem_append_right _ (List.mem_flatMap.mpr ⟨q, hq, List.mem_cons_self ..⟩)
  · have hused : (slotAt F'.slots (start + i)).used = true := by
      rw [hmarked.used _ (by omega), List.nil_append]
      refine Or.inr ?_
      have hmem : start + i ∈ (fallbackPlan F.slots group.pins start).map (·.2) := by
        rw [fallbackPlan_slots, List.mem_range'_1]
        omega
      obtain ⟨q, hq, heq⟩ := List.mem_map.mp hmem
      rw [List.map_flatMap, List.mem_flatMap]
      refine ⟨q, hq, ?_⟩
      rw [placedOf_slots, heq]
      exact List.mem_cons_self ..
    simp [Slot.isAvailable, hused]
  · rw [hassign, List.drop_left]
    exact hnodup

/-- The fallback finds a window where there is one, and only then, and places the group on it, if
and only if it fits. -/
theorem getFirstSlotToPlaceGroup_right_iff (F : Fallback) {group : PinGroup}
    (hpins : group.pins ≠ []) (hlast : lastSlot < F.slots.length)
    (hcheck : N.groupHasMirroredPin group = true → checkMirrored = true) :
    FallbackRight N boundary F checkMirrored firstSlot lastSlot group ↔
      FallbackFits N boundary F.slots checkMirrored firstSlot lastSlot group.pins := by
  have hsize : 0 < group.pins.length := List.length_pos_iff.mpr hpins
  have hsearch := @getFirstSlotToPlaceGroup_search boundary F.slots checkMirrored firstSlot
    group.pins.length lastSlot hsize hlast
  unfold FallbackRight
  generalize getFirstSlotToPlaceGroup boundary F.slots checkMirrored firstSlot lastSlot
    group.pins.length = result at hsearch ⊢
  cases hsearch with
  | found start stop hfirst hlong hstopLast hfree hleast hmirror hstop =>
      have hrun : FirstRun boundary F.slots checkMirrored firstSlot lastSlot group.pins.length start :=
        ⟨hfirst, by omega, fun s hs hs' => hfree s hs (by omega),
          fun q hq hlt => hleast q hq hlt (by omega)⟩
      constructor
      · rintro ⟨place, hplace, ⟨rfl, hnone⟩ | ⟨start', rfl, hwindow, F', hF', hplaced⟩⟩
        · exact absurd (Except.ok.inj hplace) (by omega)
        obtain rfl : start = start' := Int.ofNat.inj (Except.ok.inj hplace)
        refine ⟨fun t ht htl hvisited => ?_, fun q hq => ?_, fun hnone => absurd hrun (hnone start)⟩
        · rcases Nat.lt_or_ge stop t with hlt | hge
          · have hat := hvisited start stop hfirst hlong hlt hfree
            rcases hstop with heq | hnot
            · omega
            · rw [FreeSlot, hnot] at hat
              cases hat
          · exact hmirror t ht hge
        · obtain rfl : q = start := by
            rcases lt_trichotomy q start with hlt | heq | hlt
            · exact absurd hq.free (hrun.least q hq.first_le hlt)
            · exact heq
            · exact absurd hrun.free (hq.least start hfirst hlt)
          refine ⟨hwindow.oneSide, ?_⟩
          have hassign := (placeFallbackPins_spec _ F F' [] (Marked.refl F.slots) hF').1
          have hno := hplaced.noOverlap
          rwa [hassign, List.drop_left] at hno
      · intro hfits
        obtain ⟨hside, hnodup⟩ := hfits.first start hrun
        have hwindow : FreeWindow boundary F.slots checkMirrored firstSlot lastSlot
            group.pins.length start := freeWindow_of_freeSlots hfirst (by omega) hrun.free hside
        exact ⟨start, rfl, Or.inr ⟨start, rfl, hwindow,
          placeFallbackGroup_placed hcheck hwindow hlast hnodup⟩⟩
  | missing hnone hmirror =>
      have hno : ∀ start,
          ¬FirstRun boundary F.slots checkMirrored firstSlot lastSlot group.pins.length start :=
        fun start h => hnone start h.first_le h.le_last h.free
      constructor
      · rintro ⟨place, hplace, ⟨rfl, hwindow⟩ | ⟨start, rfl, -, -⟩⟩
        · exact ⟨fun t ht htl _ => hmirror t ht htl, fun q hq => absurd hq (hno q),
            fun _ start _ => hwindow start⟩
        · exact absurd (Except.ok.inj hplace) (by omega)
      · intro hfits
        refine ⟨-1, rfl, Or.inl ⟨rfl, fun start hwindow => ?_⟩⟩
        rcases hwindow.le_last.lt_or_eq with hlt | heq
        · exact hnone start hwindow.first_le (by omega) (hwindow.freeSlots hmirror)
        · exact hfits.last hno start heq hwindow
  | failed t e hfirst hlast' hmirror hbefore =>
      constructor
      · rintro ⟨place, hplace, -⟩
        cases hplace
      · intro hfits
        exact absurd (hfits.mirrors t hfirst hlast' hbefore) hmirror

end Met

/-- Six slots on the bottom edge and six on the top edge of a die. -/
def fallbackSlots : List Slot :=
  (List.range 6).map (fun i : Nat => ⟨false, false, ⟨10 * i, 0⟩, 2, .bottom⟩) ++
    (List.range 6).map fun i : Nat => ⟨false, false, ⟨10 * i, 100⟩, 2, .top⟩

/-- Without mirrored pins. -/
def plainNets : Netlist where
  ioPin := fun _ => ⟨none, []⟩
  numIOGroups := 1

theorem fallbackSlots_right_iff :
    FallbackRight plainNets ⟨-5, 0, 200, 100⟩ ⟨fallbackSlots, []⟩ false 0 3 ⟨[0, 1, 2], false⟩ ↔
      FallbackFits plainNets ⟨-5, 0, 200, 100⟩ fallbackSlots false 0 3 [0, 1, 2] :=
  getFirstSlotToPlaceGroup_right_iff ⟨fallbackSlots, []⟩ (by decide) (by decide) (by decide)

/-- The range is a window of the group's size, and the search does not count its last slot. -/
theorem not_fallbackRight :
    ¬∀ (N : Netlist) (boundary : Rect) (F : Fallback) (checkMirrored : Bool) (firstSlot : Nat)
      (lastSlot : Int) (group : PinGroup), group.pins ≠ [] → lastSlot < F.slots.length →
      (N.groupHasMirroredPin group = true → checkMirrored = true) →
        FallbackRight N boundary F checkMirrored firstSlot lastSlot group := by
  intro hall
  obtain ⟨place, hplace, ⟨-, hnone⟩ | ⟨start, rfl, -⟩⟩ :=
    hall plainNets ⟨-5, 0, 200, 100⟩ ⟨fallbackSlots, []⟩ false 0 2 ⟨[0, 1, 2], false⟩ (by decide)
      (by decide) (by decide)
  · exact hnone 0 ⟨by decide, by decide, by decide, by decide, fun h => by cases h⟩
  · have hmissing : getFirstSlotToPlaceGroup ⟨-5, 0, 200, 100⟩ fallbackSlots false 0 2 3 =
        .ok (-1) := by decide
    have heq := Except.ok.inj (hmissing.symm.trans hplace)
    omega

end OpenRoad.Ppl
