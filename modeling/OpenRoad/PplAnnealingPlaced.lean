import OpenRoad.PplAnnealingStart
import Mathlib.Data.List.GetD

/-!
The pins placed along the random start. No pin is placed twice, partners are placed together, and
in the end all pins are there; so the start is a good one exactly when the slots taken are all
different and were available, which is when every step is in order.
-/

namespace OpenRoad.Ppl

open Db (Point Rect)

namespace Annealer

variable {A : Annealer}

/-! ### The slots of an operation -/

variable (A) in
/-- The pins with their mirrored pins. -/
def withMirrored (pins : List Nat) : List Nat :=
  pins.flatMap fun i => i :: (A.pin i).mirrored.toList

theorem getMirroredSlotIdx_lt {i mirrored : Nat} (h : A.getMirroredSlotIdx i = .ok mirrored) :
    mirrored < A.slots.length := by
  simp only [getMirroredSlotIdx] at h
  split at h
  next found hfound =>
    obtain rfl := Except.ok.inj h
    exact (List.findIdx?_eq_some_iff_getElem.mp hfound).1
  next => exact absurd h (by simp)

/-- What is known of the pairs from a slot on. -/
structure PairsOf (A : Annealer) (pins : List Nat) (slot : Nat) (pairs : List (Nat × Nat)) :
    Prop where
  pins_eq : pairs.map (·.1) = A.withMirrored pins
  mem : ∀ n pin, pins[n]? = some pin → (pin, slot + n) ∈ pairs
  mirrored : ∀ p ∈ pairs, ∀ j, (A.pin p.1).mirrored = some j → ∃ t, (j, t) ∈ pairs ∧
    (A.getMirroredSlotIdx p.2 = .ok t ∨ A.getMirroredSlotIdx t = .ok p.2)
  lt : slot + pins.length ≤ A.slots.length → ∀ p ∈ pairs, p.2 < A.slots.length

theorem pairsFrom_spec : ∀ {pins : List Nat} {slot : Nat} {pairs : List (Nat × Nat)},
    A.pairsFrom pins slot = .ok pairs → PairsOf A pins slot pairs
  | [], slot, pairs, h => by
      obtain rfl := Except.ok.inj h
      exact ⟨rfl, by simp, by simp, by simp⟩
  | i :: pins, slot, pairs, h => by
      rw [pairsFrom] at h
      have hmem : ∀ (first : List (Nat × Nat)) {rest : List (Nat × Nat)}, (i, slot) ∈ first →
          PairsOf A pins (slot + 1) rest → ∀ n pin, (i :: pins)[n]? = some pin →
            (pin, slot + n) ∈ first ++ rest := by
        intro first rest hfirst hrest n pin hn
        cases n with
        | zero =>
            obtain rfl := Option.some.inj hn
            exact List.mem_append_left _ hfirst
        | succ n =>
            have := hrest.mem n pin hn
            rw [Nat.add_right_comm, Nat.add_assoc] at this
            exact List.mem_append_right _ this
      cases hmirrored : (A.pin i).mirrored with
      | none =>
          simp only [hmirrored, map_eq_ok] at h
          obtain ⟨rest, hrest, rfl⟩ := h
          have hspec := pairsFrom_spec hrest
          refine ⟨?_, hmem [_] (List.mem_singleton_self _) hspec, fun p hp j hj => ?_,
            fun hle p hp => ?_⟩
          · rw [List.map_cons, hspec.pins_eq, withMirrored, withMirrored, List.flatMap_cons,
              hmirrored]
            rfl
          · rcases List.mem_cons.mp hp with rfl | hp
            · rw [hmirrored] at hj
              exact absurd hj (by simp)
            · obtain ⟨t, ht, hslots⟩ := hspec.mirrored p hp j hj
              exact ⟨t, List.mem_cons_of_mem _ ht, hslots⟩
          · rw [List.length_cons] at hle
            rcases List.mem_cons.mp hp with rfl | hp
            · dsimp only
              omega
            · exact hspec.lt (by omega) p hp
      | some j =>
          simp only [hmirrored] at h
          split at h
          · exact absurd h (by simp)
          · next mirrored hslot =>
            obtain ⟨rest, hrest, rfl⟩ := map_eq_ok.mp h
            have hspec := pairsFrom_spec hrest
            have hback := (A.mirrored_symm i j hmirrored).1
            refine ⟨?_, hmem [(i, slot), (j, mirrored)] (by simp) hspec,
              fun p hp q hq => ?_, fun hle p hp => ?_⟩
            · rw [List.map_cons, List.map_cons, hspec.pins_eq, withMirrored, withMirrored,
                List.flatMap_cons, hmirrored]
              rfl
            · rcases List.mem_cons.mp hp with rfl | hp
              · obtain rfl : j = q := Option.some.inj (hmirrored.symm.trans hq)
                exact ⟨mirrored, by simp, .inl hslot⟩
              · rcases List.mem_cons.mp hp with rfl | hp
                · obtain rfl : i = q := Option.some.inj (hback.symm.trans hq)
                  exact ⟨slot, by simp, .inr hslot⟩
                · obtain ⟨t, ht, hslots⟩ := hspec.mirrored p hp q hq
                  exact ⟨t, List.mem_cons_of_mem _ (List.mem_cons_of_mem _ ht), hslots⟩
            · rw [List.length_cons] at hle
              rcases List.mem_cons.mp hp with rfl | hp
              · dsimp only
                omega
              · rcases List.mem_cons.mp hp with rfl | hp
                · exact getMirroredSlotIdx_lt hslot
                · exact hspec.lt (by omega) p hp

/-- A window lies behind the slot it is searched from and ends before the last slot. -/
theorem isFreeForGroup_bounds {S : AnnealState} {groupSize lastSlot : Nat} :
    ∀ {fuel slot found : Nat},
      A.isFreeForGroup S groupSize lastSlot fuel slot = .ok (some found) →
        slot ≤ found ∧ found + groupSize < lastSlot
  | 0, slot, found, h => absurd h (by simp [isFreeForGroup])
  | fuel + 1, slot, found, h => by
      rw [isFreeForGroup] at h
      split at h
      · exact absurd h (by simp)
      · next hlt =>
        split at h
        · exact absurd h (by simp)
        · split at h
          · obtain rfl := Option.some.inj (Except.ok.inj h)
            exact ⟨le_rfl, Nat.lt_of_not_le hlt⟩
          · have := isFreeForGroup_bounds h
            exact ⟨by omega, this.2⟩

theorem order_lt {i : Nat} (hi : i ∈ A.order) : i < A.slots.length :=
  List.mem_range.mp (A.order_perm.mem_iff.mp hi)

/-- The slots that the pins of an operation get are in the list of slots. -/
theorem choose_le {fuel : Nat} {S : AnnealState} {op : AnnealOp} {slot slotIdx : Nat}
    (h : A.choose fuel S op = .ok (some (slot, slotIdx))) :
    slot + (A.opPins op).length ≤ A.slots.length := by
  cases op with
  | group k =>
      rw [choose] at h
      cases hconstraint : (A.pin ((A.groupAt k).headD 0)).constraint with
      | some range =>
          simp only [hconstraint] at h
          obtain ⟨⟨drawn, window⟩, hdraw, hsame⟩ := map_eq_ok.mp h
          obtain ⟨rfl, -⟩ := Prod.mk.inj (Option.some.inj hsame)
          obtain ⟨_, _, _, _, htest⟩ := drawSlot_eq_ok.mp hdraw
          have hbounds := isFreeForGroup_bounds htest
          have := A.constraint_lt _ range hconstraint
          exact Nat.le_of_lt (hbounds.2.trans this)
      | none =>
          simp only [hconstraint] at h
          obtain ⟨b, hnext, hsame⟩ := map_eq_ok.mp h
          obtain rfl := Option.some.inj hsame
          obtain ⟨n, window, hn, -⟩ := nextSlot_eq_ok.mp hnext
          obtain ⟨_, _, _, _, htest⟩ := found_iff.mpr ⟨n, hn⟩
          have hbounds := isFreeForGroup_bounds htest
          change slot + (A.groupAt k).length ≤ _
          omega
  | pin onlyConstraints i =>
      rw [choose] at h
      change slot + 1 ≤ _
      split at h
      · exact absurd h (by simp)
      · cases hconstraint : (A.pin i).constraint with
        | some range =>
            simp only [hconstraint] at h
            split at h
            · obtain ⟨⟨drawn, window⟩, hdraw, hsame⟩ := map_eq_ok.mp h
              obtain ⟨rfl, -⟩ := Prod.mk.inj (Option.some.inj hsame)
              obtain ⟨before, after, hsplit, -, -⟩ := drawSlot_eq_ok.mp hdraw
              have hmem : drawn ∈ (List.range fuel).map (A.pinDraw i) := by
                rw [hsplit]
                simp
              obtain ⟨n, -, rfl⟩ := List.mem_map.mp hmem
              have hle := A.pinDraw_le i range hconstraint n
              have := A.constraint_lt _ range hconstraint
              omega
            · exact absurd h (by simp)
        | none =>
            simp only [hconstraint] at h
            split at h
            · exact absurd h (by simp)
            · obtain ⟨b, hnext, hsame⟩ := map_eq_ok.mp h
              obtain rfl := Option.some.inj hsame
              obtain ⟨n, window, hn, -⟩ := nextSlot_eq_ok.mp hnext
              obtain ⟨before, after, hsplit, -, -⟩ := found_iff.mpr ⟨n, hn⟩
              have hmem : slot ∈ A.order.drop S.slotIdx := by
                rw [hsplit]
                simp
              exact order_lt (List.mem_of_mem_drop hmem)

/-- Only pins are passed over: those that are placed, and those of the other round. -/
theorem choose_eq_none {fuel : Nat} {S : AnnealState} {op : AnnealOp}
    (h : A.choose fuel S op = .ok none) : ∃ onlyConstraints i, op = .pin onlyConstraints i ∧
      (i ∈ S.placedPins ∨ onlyConstraints ≠ (A.pin i).constraint.isSome) := by
  cases op with
  | group k =>
      rw [choose] at h
      split at h
      · obtain ⟨b, -, hb⟩ := map_eq_ok.mp h
        exact absurd hb (by simp)
      · obtain ⟨b, -, hb⟩ := map_eq_ok.mp h
        exact absurd hb (by simp)
  | pin onlyConstraints i =>
      refine ⟨onlyConstraints, i, rfl, ?_⟩
      rw [choose] at h
      by_cases hplaced : i ∈ S.placedPins
      · exact .inl hplaced
      · right
        rw [if_neg hplaced] at h
        cases hconstraint : (A.pin i).constraint with
        | some range =>
            simp only [hconstraint] at h
            split at h
            · obtain ⟨b, -, hb⟩ := map_eq_ok.mp h
              exact absurd hb (by simp)
            · next honly => simpa using honly
        | none =>
            simp only [hconstraint] at h
            split at h
            · next honly => simpa using honly
            · obtain ⟨b, -, hb⟩ := map_eq_ok.mp h
              exact absurd hb (by simp)

theorem choose_pin_eq_some {fuel : Nat} {S : AnnealState} {onlyConstraints : Bool} {i : Nat}
    {r : Nat × Nat} (h : A.choose fuel S (.pin onlyConstraints i) = .ok (some r)) :
    i ∉ S.placedPins ∧ onlyConstraints = (A.pin i).constraint.isSome := by
  rw [choose] at h
  split at h
  · exact absurd h (by simp)
  · next hplaced =>
    refine ⟨hplaced, ?_⟩
    cases hconstraint : (A.pin i).constraint with
    | some range =>
        simp only [hconstraint] at h
        split at h
        · next honly => simpa using honly
        · exact absurd h (by simp)
    | none =>
        simp only [hconstraint] at h
        split at h
        · exact absurd h (by simp)
        · next honly => simpa using honly

/-! ### The pins placed so far -/

theorem mem_withMirrored {pins : List Nat} {i : Nat} :
    i ∈ A.withMirrored pins ↔ ∃ p ∈ pins, i = p ∨ (A.pin p).mirrored = some i := by
  simp [withMirrored, List.mem_flatMap, Option.mem_toList]

/-- No pin of a group comes twice, and no mirrored pin of one. -/
theorem withMirrored_nodup (hA : A.PairsApart) {pins : List Nat} (hnodup : pins.Nodup)
    (hsub : ∀ i ∈ pins, i ∈ A.groups.flatten) : (A.withMirrored pins).Nodup := by
  rw [withMirrored, List.nodup_flatMap]
  constructor
  · intro i _
    cases hmirrored : (A.pin i).mirrored with
    | none => simp
    | some j => simpa using (A.mirrored_symm i j hmirrored).2
  · refine hnodup.imp_of_mem fun {a b} ha hb hab => ?_
    intro i hia hib
    have hself : ∀ {p}, p ∈ pins → i ∈ p :: (A.pin p).mirrored.toList →
        i = p ∨ (A.pin p).mirrored = some i := by
      intro p _ hi
      simpa [Option.mem_toList] using hi
    rcases hself ha hia with rfl | hia <;> rcases hself hb hib with rfl | hib
    · exact hab rfl
    · exact hA b (hsub b hb) _ hib (hsub _ ha)
    · exact hA a (hsub a ha) _ hia (hsub _ hb)
    · have hback := (A.mirrored_symm a i hia).1
      rw [A.mirrored_symm b i hib |>.1] at hback
      exact hab (Option.some.inj hback).symm

/-- The pins that the operations behind the state have put on their slots. -/
structure Reached (A : Annealer) (S : AnnealState) (done : List AnnealOp)
    (pairs : List (Nat × Nat)) : Prop where
  assignment : S.assignment = (A.init.assignAll pairs).assignment
  used : S.used = (A.init.assignAll pairs).used
  nodup : (pairs.map (·.1)).Nodup
  lt : ∀ p ∈ pairs, p.1 < A.pins.length ∧ p.2 < A.slots.length
  mirrored : ∀ p ∈ pairs, ∀ j, (A.pin p.1).mirrored = some j → ∃ t, (j, t) ∈ pairs ∧
    (A.getMirroredSlotIdx p.2 = .ok t ∨ A.getMirroredSlotIdx t = .ok p.2)
  placedPins : ∀ i ∈ S.placedPins, i ∈ pairs.map (·.1)
  visited : ∀ i ∈ pairs.map (·.1),
    i ∈ S.placedPins ∨ .pin (A.pin i).constraint.isSome i ∈ done
  pins : ∀ i, .pin (A.pin i).constraint.isSome i ∈ done → i ∈ pairs.map (·.1)
  groups : ∀ k, .group k ∈ done → ∃ base, ∀ n pin, (A.groupAt k)[n]? = some pin →
    (pin, base + n) ∈ pairs
  groupPins : ∀ k, done = (List.range k).map .group →
    pairs.map (·.1) = A.withMirrored (A.groups.take k).flatten

theorem ops_nodup : A.ops.Nodup := by
  have hpin : ∀ b : Bool, Function.Injective (AnnealOp.pin b) := fun b i j h => by
    injection h
  have hgroup : Function.Injective AnnealOp.group := fun i j h => by injection h
  rw [ops, List.nodup_append, List.nodup_append]
  refine ⟨⟨List.nodup_range.map hgroup, List.nodup_range.map (hpin true), ?_⟩,
    List.nodup_range.map (hpin false), ?_⟩
  · simp
  · intro op hop op' hop'
    obtain ⟨i, -, rfl⟩ := List.mem_map.mp hop'
    rintro rfl
    simp at hop

/-- Before a group only the groups before it come. -/
theorem ops_group {done rest : List AnnealOp} {k : Nat} (h : A.ops = done ++ .group k :: rest) :
    k < A.groups.length ∧ done = (List.range k).map .group := by
  have hget : A.ops[done.length]? = some (.group k) := by rw [h]; simp
  have hlt : done.length < A.groups.length := by
    by_contra hge
    rw [ops, List.append_assoc, List.getElem?_append_right (by simpa using hge)] at hget
    have hmem := List.mem_of_getElem? hget
    simp at hmem
  have hk : done.length = k := by
    rw [ops, List.append_assoc, List.getElem?_append_left (by simpa using hlt)] at hget
    simpa [hlt] using hget
  refine ⟨hk ▸ hlt, ?_⟩
  calc done = A.ops.take done.length := by rw [h, List.take_left]
    _ = ((List.range A.groups.length).map AnnealOp.group).take k := by
        rw [ops, List.append_assoc, hk, List.take_append_of_le_length (by simp; omega)]
    _ = (List.range k).map .group := by
        rw [← List.map_take, List.take_range, Nat.min_eq_left (by omega)]

/-- The pins of an operation and their mirrored pins are pins of the netlist. -/
theorem opPins_lt {done rest : List AnnealOp} {op : AnnealOp} (h : A.ops = done ++ op :: rest)
    {i : Nat} (hi : i ∈ A.withMirrored (A.opPins op)) : i < A.pins.length := by
  obtain ⟨p, hp, hip⟩ := mem_withMirrored.mp hi
  rcases hip with rfl | hmirrored
  · cases op with
    | group k =>
        obtain ⟨hk, -⟩ := ops_group h
        rw [opPins, groupAt, List.getD_eq_getElem _ _ hk] at hp
        exact A.groups_lt i (List.mem_flatten.mpr ⟨_, List.getElem_mem hk, hp⟩)
    | pin onlyConstraints q =>
        obtain rfl := List.mem_singleton.mp hp
        have hmem : AnnealOp.pin onlyConstraints i ∈ A.ops := by rw [h]; simp
        simp only [ops, List.mem_append, List.mem_map, List.mem_range] at hmem
        rcases hmem with (⟨k, -, hk⟩ | ⟨k, hk, heq⟩) | ⟨k, hk, heq⟩
        · exact absurd hk (by simp)
        · exact (AnnealOp.pin.inj heq).2 ▸ hk
        · exact (AnnealOp.pin.inj heq).2 ▸ hk
  · have hback := (A.mirrored_symm p i hmirrored).1
    by_contra hge
    rw [annealPinAt, List.getD_eq_default _ _ (not_lt.mp hge)] at hback
    exact absurd hback (by simp)

theorem init_reached : Reached A A.init [] [] := by
  refine ⟨rfl, rfl, List.nodup_nil, by simp, by simp, by simp [init], by simp, by simp, by simp,
    fun k hk => ?_⟩
  obtain rfl : k = 0 := by simpa using hk.symm
  rfl

theorem flatten_take_succ {k : Nat} (hk : k < A.groups.length) :
    (A.groups.take (k + 1)).flatten = (A.groups.take k).flatten ++ A.groupAt k := by
  rw [List.take_add_one, List.getElem?_eq_getElem hk, List.flatten_append, groupAt,
    List.getD_eq_getElem _ _ hk]
  simp

/-- An operation places pins that were not placed before, each of them once. -/
theorem Reached.fresh (hA : A.PairsApart) {S : AnnealState} {done rest : List AnnealOp}
    {pairs : List (Nat × Nat)} (h : Reached A S done pairs) {op : AnnealOp}
    (hops : A.ops = done ++ op :: rest) {fuel : Nat} {r : Nat × Nat}
    (hchoose : A.choose fuel S op = .ok (some r)) :
    (pairs.map (·.1) ++ A.withMirrored (A.opPins op)).Nodup := by
  cases op with
  | group k =>
      obtain ⟨hk, hdone⟩ := ops_group hops
      have hsub : ∀ i ∈ (A.groups.take (k + 1)).flatten, i ∈ A.groups.flatten := fun i hi => by
        obtain ⟨group, hgroup, hi⟩ := List.mem_flatten.mp hi
        exact List.mem_flatten.mpr ⟨group, List.mem_of_mem_take hgroup, hi⟩
      have hnodup : (A.groups.take (k + 1)).flatten.Nodup :=
        A.groups_nodup.sublist (List.Sublist.flatten (List.take_sublist _ _))
      have hall := withMirrored_nodup hA hnodup hsub
      rw [flatten_take_succ hk, withMirrored, List.flatMap_append] at hall
      rw [h.groupPins k hdone]
      exact hall
  | pin onlyConstraints i =>
      obtain ⟨hnot, rfl⟩ := choose_pin_eq_some hchoose
      have hundone : AnnealOp.pin (A.pin i).constraint.isSome i ∉ done := by
        have hnodup := A.ops_nodup
        rw [hops, List.nodup_append] at hnodup
        exact fun hmem => hnodup.2.2 _ hmem _ List.mem_cons_self rfl
      have hi : i ∉ pairs.map (·.1) := fun hmem =>
        (h.visited i hmem).elim hnot hundone
      have hwith : A.withMirrored (A.opPins (.pin (A.pin i).constraint.isSome i)) =
          i :: (A.pin i).mirrored.toList := by
        simp [withMirrored, opPins]
      rw [hwith, List.nodup_append]
      refine ⟨h.nodup, ?_, ?_⟩
      · cases hmirrored : (A.pin i).mirrored with
        | none => simp
        | some j => simpa using (A.mirrored_symm i j hmirrored).2
      · rintro p hp q hq rfl
        rcases List.mem_cons.mp hq with rfl | hq
        · exact hi hp
        · -- the partner of a placed pin is placed
          have hback := (A.mirrored_symm i p (Option.mem_toList.mp hq)).1
          obtain ⟨pair, hpair, rfl⟩ := List.mem_map.mp hp
          obtain ⟨t, ht, -⟩ := h.mirrored pair hpair i hback
          exact hi (List.mem_map.mpr ⟨(i, t), ht, rfl⟩)

/-- The step lemma. -/
theorem Reached.step (hA : A.PairsApart) {S : AnnealState} {done rest : List AnnealOp}
    {pairs : List (Nat × Nat)} (h : Reached A S done pairs) {op : AnnealOp}
    (hops : A.ops = done ++ op :: rest) {fuel slot slotIdx : Nat}
    (hchoose : A.choose fuel S op = .ok (some (slot, slotIdx))) {more : List (Nat × Nat)}
    (hmore : A.pairsFrom (A.opPins op) slot = .ok more) :
    Reached A (afterOp S op more slotIdx) (done ++ [op]) (pairs ++ more) := by
  have hspec := pairsFrom_spec hmore
  have hnodup : ((pairs ++ more).map (·.1)).Nodup := by
    rw [List.map_append, hspec.pins_eq]
    exact h.fresh hA hops hchoose
  have hmarks : ∀ i ∈ marks more op, i ∈ more.map (·.1) := by
    intro i hi
    cases op with
    | group k => exact List.mem_reverse.mp hi
    | pin onlyConstraints p => exact List.mem_of_mem_tail hi
  refine ⟨?_, ?_, hnodup, fun p hp => ?_, fun p hp j hj => ?_, fun i hi => ?_, fun i hi => ?_,
    fun i hi => ?_, fun k hk => ?_, fun K hK => ?_⟩
  · rw [AnnealState.assignAll_append]
    exact AnnealState.assignAll_assignment_congr h.assignment more
  · rw [AnnealState.assignAll_append]
    exact AnnealState.assignAll_used_congr h.used more
  · rcases List.mem_append.mp hp with hp | hp
    · exact h.lt p hp
    · refine ⟨opPins_lt hops ?_, hspec.lt (choose_le hchoose) p hp⟩
      rw [← hspec.pins_eq]
      exact List.mem_map_of_mem hp
  · rcases List.mem_append.mp hp with hp | hp
    · obtain ⟨t, ht, hslots⟩ := h.mirrored p hp j hj
      exact ⟨t, List.mem_append_left _ ht, hslots⟩
    · obtain ⟨t, ht, hslots⟩ := hspec.mirrored p hp j hj
      exact ⟨t, List.mem_append_right _ ht, hslots⟩
  · rw [List.map_append, List.mem_append]
    rcases List.mem_append.mp hi with hi | hi
    · exact .inr (hmarks i hi)
    · exact .inl (h.placedPins i hi)
  · rw [List.map_append, List.mem_append] at hi
    rcases hi with hi | hi
    · exact (h.visited i hi).imp (List.mem_append_right _) (List.mem_append_left _)
    · cases op with
      | group k => exact .inl (List.mem_append_left _ (List.mem_reverse.mpr hi))
      | pin onlyConstraints p =>
          have hpins : more.map (·.1) = p :: (A.pin p).mirrored.toList := by
            rw [hspec.pins_eq]
            simp [withMirrored, opPins]
          rw [hpins] at hi
          rcases List.mem_cons.mp hi with rfl | hi
          · right
            rw [(choose_pin_eq_some hchoose).2]
            exact List.mem_append_right _ (List.mem_singleton_self _)
          · refine .inl (List.mem_append_left _ ?_)
            rw [marks, hpins]
            exact hi
  · rw [List.map_append, List.mem_append]
    rcases List.mem_append.mp hi with hi | hi
    · exact .inl (h.pins i hi)
    · obtain rfl := List.mem_singleton.mp hi
      exact .inr (List.mem_map_of_mem (f := (·.1)) (hspec.mem 0 i rfl))
  · rcases List.mem_append.mp hk with hk | hk
    · obtain ⟨base, hbase⟩ := h.groups k hk
      exact ⟨base, fun n pin hn => List.mem_append_left _ (hbase n pin hn)⟩
    · obtain rfl := List.mem_singleton.mp hk
      exact ⟨slot, fun n pin hn => List.mem_append_right _ (hspec.mem n pin hn)⟩
  · cases K with
    | zero => exact absurd hK (by simp)
    | succ K =>
        rw [List.range_succ, List.map_append, List.map_singleton] at hK
        obtain ⟨hdone, hop⟩ := List.append_inj' hK rfl
        obtain rfl := List.singleton_inj.mp hop
        rw [List.map_append, h.groupPins K hdone, hspec.pins_eq,
          flatten_take_succ (ops_group hops).1, withMirrored, withMirrored, withMirrored,
          List.flatMap_append]
        rfl

/-- An operation that places nothing. -/
theorem Reached.skip {S : AnnealState} {done : List AnnealOp} {pairs : List (Nat × Nat)}
    (h : Reached A S done pairs) {op : AnnealOp} {fuel : Nat}
    (hchoose : A.choose fuel S op = .ok none) : Reached A S (done ++ [op]) pairs := by
  obtain ⟨onlyConstraints, p, rfl, hskip⟩ := choose_eq_none hchoose
  refine ⟨h.assignment, h.used, h.nodup, h.lt, h.mirrored, h.placedPins,
    fun i hi => (h.visited i hi).imp_right (List.mem_append_left _), fun i hi => ?_,
    fun k hk => ?_, fun K hK => ?_⟩
  · rcases List.mem_append.mp hi with hi | hi
    · exact h.pins i hi
    · obtain ⟨rfl, rfl⟩ := AnnealOp.pin.inj (List.mem_singleton.mp hi)
      exact h.placedPins i (hskip.resolve_right (not_not_intro rfl))
  · rcases List.mem_append.mp hk with hk | hk
    · exact h.groups k hk
    · exact absurd (List.mem_singleton.mp hk) (by simp)
  · cases K with
    | zero => exact absurd hK (by simp)
    | succ K =>
        rw [List.range_succ, List.map_append, List.map_singleton] at hK
        exact absurd (List.append_inj' hK rfl).2 (by simp)

/-! ### When the start is a good one -/

/-- The slots are all different, and they were available. -/
def AllFree (A : Annealer) (pairs : List (Nat × Nat)) : Prop :=
  (pairs.map (·.2)).Nodup ∧ ∀ s ∈ pairs.map (·.2), (slotAt A.slots s).isAvailable = true

theorem AllFree.of_append {pairs more : List (Nat × Nat)} (h : AllFree A (pairs ++ more)) :
    AllFree A pairs := by
  rw [AllFree, List.map_append] at h
  exact ⟨(List.nodup_append.mp h.1).1, fun s hs => h.2 s (List.mem_append_left _ hs)⟩

theorem Reached.isAvailable_iff {S : AnnealState} {done : List AnnealOp}
    {pairs : List (Nat × Nat)} (h : Reached A S done pairs) (s : Nat) :
    A.isAvailable S s = true ↔ (slotAt A.slots s).isAvailable = true ∧ s ∉ pairs.map (·.2) := by
  have hused : S.used s = true ↔ (slotAt A.slots s).used = true ∨ s ∈ pairs.map (·.2) := by
    rw [h.used]
    exact AnnealState.assignAll_used _ _ _
  rw [Annealer.isAvailable, Slot.isAvailable, Bool.and_eq_true, Bool.and_eq_true, and_assoc]
  refine and_congr_right fun _ => ?_
  rw [Bool.not_eq_true', Bool.not_eq_true', ← Bool.not_eq_true, hused, not_or, Bool.not_eq_true]

/-- The slots stay free when an operation takes free slots, and only then. -/
theorem Reached.allFree_append_iff {S : AnnealState} {done : List AnnealOp}
    {pairs more : List (Nat × Nat)} (h : Reached A S done pairs) (hfree : AllFree A pairs) :
    AllFree A (pairs ++ more) ↔
      (more.map (·.2)).Nodup ∧ ∀ s ∈ more.map (·.2), A.isAvailable S s = true := by
  rw [AllFree, List.map_append, List.nodup_append]
  simp only [h.isAvailable_iff, List.mem_append]
  constructor
  · rintro ⟨⟨-, hnodup, hapart⟩, havailable⟩
    exact ⟨hnodup, fun s hs =>
      ⟨havailable s (.inr hs), fun hin => hapart s hin s hs rfl⟩⟩
  · rintro ⟨hnodup, hnew⟩
    refine ⟨⟨hfree.1, hnodup, ?_⟩, fun s hs => hs.elim (hfree.2 s) fun hs => (hnew s hs).1⟩
    rintro s hs t ht rfl
    exact (hnew s ht).2 hs

theorem Reached.assignment_eq {S : AnnealState} {done : List AnnealOp} {pairs : List (Nat × Nat)}
    (h : Reached A S done pairs) {p : Nat × Nat} (hp : p ∈ pairs) : S.assignment p.1 = p.2 := by
  rw [h.assignment]
  exact AnnealState.assignAll_of_mem _ h.nodup hp

/-- In the end all pins are placed, and how well depends on the slots only. -/
theorem Reached.placed_iff {S : AnnealState} {pairs : List (Nat × Nat)}
    (h : Reached A S A.ops pairs) : A.Placed S.assignment ↔ AllFree A pairs := by
  have hall : ∀ i < A.pins.length, (i, S.assignment i) ∈ pairs := by
    intro i hi
    have hmem : AnnealOp.pin (A.pin i).constraint.isSome i ∈ A.ops := by
      cases (A.pin i).constraint.isSome <;> simp [ops, hi]
    obtain ⟨p, hp, rfl⟩ := List.mem_map.mp (h.pins i hmem)
    rw [h.assignment_eq hp]
    exact hp
  constructor
  · intro hplaced
    refine ⟨h.nodup.of_map.map_on fun p hp q hq heq => ?_, fun s hs => ?_⟩
    · rw [← h.assignment_eq hp, ← h.assignment_eq hq] at heq
      refine Prod.ext (hplaced.distinct _ (h.lt p hp).1 _ (h.lt q hq).1 heq) ?_
      rw [← h.assignment_eq hp, ← h.assignment_eq hq, heq]
    · obtain ⟨p, hp, rfl⟩ := List.mem_map.mp hs
      rw [← h.assignment_eq hp]
      exact (hplaced.available p.1 (h.lt p hp).1).2
  · rintro ⟨hnodup, havailable⟩
    refine ⟨fun i hi j hj heq => ?_, fun i hi => ⟨(h.lt _ (hall i hi)).2, havailable _ ?_⟩,
      fun k hk => ?_, fun i hi j hj => ?_⟩
    · have hsame := List.inj_on_of_nodup_map hnodup (hall i hi) (hall j hj) heq
      exact congrArg Prod.fst hsame
    · exact List.mem_map_of_mem (hall i hi)
    · have hmem : AnnealOp.group k ∈ A.ops := by simp [ops, hk]
      obtain ⟨base, hbase⟩ := h.groups k hmem
      exact ⟨base, fun n pin hn => h.assignment_eq (hbase n pin hn)⟩
    · obtain ⟨t, ht, hslots⟩ := h.mirrored _ (hall i hi) j hj
      have hj : S.assignment j = t := h.assignment_eq ht
      rw [hj]
      exact hslots

/-! ### The runs -/

theorem toOption_eq_some {B : Type} {x : Except AnnealError B} {b : B} :
    x.toOption = some b ↔ x = .ok b := by
  cases x <;> simp [Except.toOption]

/-- A run places its pins on free slots only when all its steps are in order. -/
theorem run_reached (hA : A.PairsApart) {fuel : Nat} :
    ∀ {rest done : List AnnealOp} {S S' : AnnealState} {pairs : List (Nat × Nat)},
      A.ops = done ++ rest → Reached A S done pairs →
      Run.run (fun S op => (A.step fuel S op).toOption) S rest = some S' →
      ∃ more, Reached A S' A.ops (pairs ++ more) ∧ (AllFree A (pairs ++ more) →
        Run.Along (fun S op => (A.step fuel S op).toOption) A.StepInOrder S rest)
  | [], done, S, S', pairs, hops, h, hrun => by
      obtain rfl := Option.some.inj hrun
      refine ⟨[], ?_, fun _ => trivial⟩
      rw [List.append_nil] at hops ⊢
      exact hops ▸ h
  | op :: rest, done, S, S', pairs, hops, h, hrun => by
      obtain ⟨T, hT, hrest⟩ := Option.bind_eq_some_iff.mp hrun
      have hops' : A.ops = (done ++ [op]) ++ rest := by simpa using hops
      have hcons : A.StepInOrder S op →
          Run.Along (fun S op => (A.step fuel S op).toOption) A.StepInOrder T rest →
          Run.Along (fun S op => (A.step fuel S op).toOption) A.StepInOrder S (op :: rest) := by
        intro hok halong
        refine ⟨hok, fun T' hT' => ?_⟩
        obtain rfl := Option.some.inj (hT.symm.trans hT')
        exact halong
      rcases step_eq_ok.mp (toOption_eq_some.mp hT) with
        ⟨hchoose, rfl⟩ | ⟨slot, slotIdx, placed, hchoose, hplaced, rfl⟩
      · obtain ⟨more, hreached, halong⟩ := run_reached hA hops' (h.skip hchoose) hrest
        exact ⟨more, hreached, fun hall =>
          hcons (stepInOrder_iff.mpr ⟨fuel, .inl hchoose⟩) (halong hall)⟩
      · obtain ⟨more, hreached, halong⟩ :=
          run_reached hA hops' (h.step hA hops hchoose hplaced) hrest
        rw [List.append_assoc] at hreached halong
        refine ⟨placed ++ more, hreached, fun hall => hcons ?_ (halong hall)⟩
        have hnew : AllFree A (pairs ++ placed) := by
          rw [← List.append_assoc] at hall
          exact hall.of_append
        have htakes := (h.allFree_append_iff hnew.of_append).mp hnew
        exact stepInOrder_iff.mpr ⟨fuel, .inr ⟨slot, slotIdx, hchoose, placed, hplaced, htakes⟩⟩

/-- Steps in order give a run that ends, whatever the fuel above some bound. -/
theorem run_of_inOrder (hA : A.PairsApart) :
    ∀ {rest done : List AnnealOp} {S : AnnealState} {pairs : List (Nat × Nat)},
      A.ops = done ++ rest → Reached A S done pairs → AllFree A pairs →
      (∃ k, ∀ fuel ≥ k,
        Run.Along (fun S op => (A.step fuel S op).toOption) A.StepInOrder S rest) →
      ∃ S' pairs', (∃ k, ∀ fuel ≥ k,
        Run.run (fun S op => (A.step fuel S op).toOption) S rest = some S') ∧
          Reached A S' A.ops pairs' ∧ AllFree A pairs'
  | [], done, S, pairs, hops, h, hfree, _ => by
      rw [List.append_nil] at hops
      exact ⟨S, pairs, ⟨0, fun fuel _ => rfl⟩, hops ▸ h, hfree⟩
  | op :: rest, done, S, pairs, hops, h, hfree, ⟨k, halong⟩ => by
      have hops' : A.ops = (done ++ [op]) ++ rest := by simpa using hops
      obtain ⟨fuel, hstep⟩ := stepInOrder_iff.mp (halong k le_rfl).1
      -- the step gives the same state for all fuel from here on
      have hrun : ∀ {T : AnnealState} {pairs' : List (Nat × Nat)},
          (∀ fuel' ≥ fuel, A.step fuel' S op = .ok T) →
          Reached A T (done ++ [op]) pairs' → AllFree A pairs' →
          ∃ S' pairs', (∃ k, ∀ fuel ≥ k,
            Run.run (fun S op => (A.step fuel S op).toOption) S (op :: rest) = some S') ∧
              Reached A S' A.ops pairs' ∧ AllFree A pairs' := by
        intro T pairs' hT hreached hnew
        obtain ⟨S', pairs'', ⟨k', hk'⟩, hend⟩ := run_of_inOrder hA hops' hreached hnew
          ⟨max k fuel, fun fuel' hfuel' => (halong fuel' ((le_max_left _ _).trans hfuel')).2 T
            (toOption_eq_some.mpr (hT fuel' ((le_max_right _ _).trans hfuel')))⟩
        refine ⟨S', pairs'', ⟨max fuel k', fun fuel' hfuel' => ?_⟩, hend⟩
        rw [Run.run_cons, toOption_eq_some.mpr (hT fuel' ((le_max_left _ _).trans hfuel'))]
        exact hk' fuel' ((le_max_right _ _).trans hfuel')
      rcases hstep with hchoose | ⟨slot, slotIdx, hchoose, placed, hplaced, htakes⟩
      · have hT : ∀ fuel' ≥ fuel, A.step fuel' S op = .ok S := fun fuel' hle =>
          step_eq_ok.mpr (.inl ⟨choose_mono hle hchoose, rfl⟩)
        exact hrun hT (h.skip hchoose) hfree
      · have hT : ∀ fuel' ≥ fuel, A.step fuel' S op = .ok (afterOp S op placed slotIdx) :=
          fun fuel' hle => step_eq_ok.mpr
            (.inr ⟨slot, slotIdx, placed, choose_mono hle hchoose, hplaced, rfl⟩)
        exact hrun hT (h.step hA hops hchoose hplaced)
          ((h.allFree_append_iff hfree).mpr htakes)

/-- The random start is a good one exactly when every step is in order. -/
theorem startsWell_iff (hA : A.PairsApart) : A.StartsWell ↔ A.RunsInOrder := by
  have hinit : AllFree A [] := ⟨List.nodup_nil, by simp⟩
  constructor
  · rintro ⟨S, ⟨k, hrun⟩, hplaced⟩
    refine ⟨k, fun fuel hfuel => ?_⟩
    obtain ⟨pairs, hreached, halong⟩ :=
      run_reached hA (List.nil_append _).symm init_reached (hrun fuel hfuel)
    exact halong (hreached.placed_iff.mp hplaced)
  · intro halong
    obtain ⟨S, pairs, hrun, hreached, hfree⟩ :=
      run_of_inOrder hA (List.nil_append _).symm init_reached hinit halong
    exact ⟨S, hrun, hreached.placed_iff.mpr hfree⟩

end Annealer

/-! ### A group on the slot of the list -/

/-- Four slots on the bottom edge and four on the top edge; the first one is blocked. -/
def annealSlots : List Slot :=
  (List.range 8).map fun i =>
    ⟨i = 0, false, ⟨10 * (i % 4 + 1), if i < 4 then 0 else 100⟩, 1, if i < 4 then .bottom else .top⟩

/-- Two pins in one group. -/
def annealGroup (order : List Nat) (h : order.Perm (List.range 8)) : Annealer where
  slots := annealSlots
  boundary := ⟨0, 0, 50, 100⟩
  pins := [⟨none, none⟩, ⟨none, none⟩]
  groups := [[0, 1]]
  order := order
  groupDraw := fun _ _ => 0
  pinDraw := fun _ _ => 0
  order_perm := h
  groups_ne := by decide
  groups_lt := by decide
  groups_nodup := by decide
  mirrored_symm := by
    rintro (_ | _ | i) j hj <;> simp [annealPinAt] at hj
  constraint_lt := by
    rintro (_ | _ | i) range hrange <;> simp [annealPinAt] at hrange
  pinDraw_le := by
    rintro (_ | _ | i) range hrange <;> simp [annealPinAt] at hrange

theorem annealGroup_startsWell_iff :
    (annealGroup [1, 0, 2, 3, 4, 5, 6, 7] (by decide)).StartsWell ↔
      (annealGroup [1, 0, 2, 3, 4, 5, 6, 7] (by decide)).RunsInOrder := by
  apply Annealer.startsWell_iff
  rintro i - j hj
  rcases i with _ | _ | i <;> simp [annealGroup, Annealer.pin, annealPinAt] at hj

/-- From the blocked slot on a window is found, but the group is put on the blocked slot. -/
theorem not_startsWell :
    (∃ assignment, (annealGroup (List.range 8) (by decide)).Placed assignment) ∧
      ¬(annealGroup (List.range 8) (by decide)).StartsWell := by
  constructor
  · refine ⟨fun i => i + 1, by decide, by decide, fun k hk => ⟨1, ?_⟩, fun i hi j hj => ?_⟩
    · obtain rfl : k = 0 := by simpa [annealGroup] using hk
      rintro (_ | _ | n) pin hpin
      · obtain rfl := Option.some.inj hpin
        rfl
      · obtain rfl := Option.some.inj hpin
        rfl
      · exact absurd hpin (by simp [annealGroup, Annealer.groupAt])
    · rcases i with _ | _ | i <;> simp [annealGroup, Annealer.pin, annealPinAt] at hj
  · rintro ⟨S, ⟨k, hrun⟩, hplaced⟩
    have hfirst : ((annealGroup (List.range 8) (by decide)).randomAssignment k).map
        (·.assignment 0) = some 0 := rfl
    rw [hrun k le_rfl] at hfirst
    have havailable := (hplaced.available 0 (by decide)).2
    have hzero : S.assignment 0 = 0 := Option.some.inj hfirst
    rw [hzero] at havailable
    exact absurd havailable (by decide)

end OpenRoad.Ppl
