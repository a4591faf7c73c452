import OpenRoad.PplAnnealing
import Mathlib.Data.List.Range
import Mathlib.Data.List.Flatten

/-!
The random start is a good one exactly when every step is in order. What the steps have placed so
far is kept as a list of pins with their slots: no pin comes twice, partners come together, and the
start is good when the slots of the list are all different and were available.
-/

namespace OpenRoad.Ppl

open Db (Point Rect)

/-! ### The loops over candidates -/

theorem searchSlots_eq_some {B : Type} {test : Nat → Except AnnealError (Option B)} {slot : Nat}
    {b : B} : ∀ {candidates : List Nat} {n : Nat},
      searchSlots test candidates = .ok (some (n, slot, b)) ↔
        ∃ before after, candidates = before ++ slot :: after ∧ before.length = n ∧
          (∀ v ∈ before, test v = .ok none) ∧ test slot = .ok (some b)
  | [], n => by simp [searchSlots]
  | c :: cs, n => by
      rw [searchSlots]
      constructor
      · intro h
        cases hc : test c with
        | error e => simp [hc] at h
        | ok found =>
            cases found with
            | some b' =>
                simp only [hc, Except.ok.injEq, Option.some.injEq, Prod.mk.injEq] at h
                obtain ⟨rfl, rfl, rfl⟩ := h
                exact ⟨[], cs, rfl, rfl, by simp, hc⟩
            | none =>
                cases hcs : searchSlots test cs with
                | error e => simp [hc, hcs] at h
                | ok rest =>
                    cases rest with
                    | none => simp [hc, hcs] at h
                    | some r =>
                        obtain ⟨m, found, b'⟩ := r
                        simp only [hc, hcs, Except.ok.injEq, Option.some.injEq,
                          Prod.mk.injEq] at h
                        obtain ⟨rfl, rfl, rfl⟩ := h
                        obtain ⟨before, after, rfl, hlen, hbefore, hslot⟩ :=
                          searchSlots_eq_some.mp hcs
                        exact ⟨c :: before, after, rfl, congrArg (· + 1) hlen,
                          List.forall_mem_cons.mpr ⟨hc, hbefore⟩, hslot⟩
      · rintro ⟨before, after, hsplit, rfl, hbefore, hslot⟩
        cases before with
        | nil =>
            obtain ⟨rfl, rfl⟩ := List.cons.inj hsplit
            rw [hslot]
            rfl
        | cons v before =>
            obtain ⟨rfl, rfl⟩ := List.cons.inj hsplit
            obtain ⟨hv, hbefore⟩ := List.forall_mem_cons.mp hbefore
            have hrest : searchSlots test (before.append (slot :: after)) =
                .ok (some (before.length, slot, b)) :=
              searchSlots_eq_some.mpr ⟨before, after, rfl, rfl, hbefore, hslot⟩
            simp only [hv, hrest, List.length_cons]

theorem searchSlots_append {B : Type} {test : Nat → Except AnnealError (Option B)}
    {candidates more : List Nat} {r : Nat × Nat × B}
    (h : searchSlots test candidates = .ok (some r)) :
    searchSlots test (candidates ++ more) = .ok (some r) := by
  obtain ⟨n, slot, b⟩ := r
  obtain ⟨before, after, rfl, hlen, hbefore, hslot⟩ := searchSlots_eq_some.mp h
  exact searchSlots_eq_some.mpr
    ⟨before, after ++ more, by simp, hlen, hbefore, hslot⟩

/-- More draws change nothing once one has passed. -/
theorem searchSlots_draws {B : Type} {test : Nat → Except AnnealError (Option B)}
    {draw : Nat → Nat} {fuel fuel' : Nat} (hle : fuel ≤ fuel') {r : Nat × Nat × B}
    (h : searchSlots test ((List.range fuel).map draw) = .ok (some r)) :
    searchSlots test ((List.range fuel').map draw) = .ok (some r) := by
  obtain ⟨more, rfl⟩ := Nat.exists_eq_add_of_le hle
  rw [List.range_add, List.map_append]
  exact searchSlots_append h

theorem found_iff {B : Type} {test : Nat → Except AnnealError (Option B)} {candidates : List Nat}
    {slot : Nat} {b : B} : Annealer.Found test candidates slot b ↔
      ∃ n, searchSlots test candidates = .ok (some (n, slot, b)) := by
  constructor
  · rintro ⟨before, after, rfl, hbefore, hslot⟩
    exact ⟨before.length, searchSlots_eq_some.mpr ⟨before, after, rfl, rfl, hbefore, hslot⟩⟩
  · rintro ⟨n, h⟩
    obtain ⟨before, after, rfl, -, hbefore, hslot⟩ := searchSlots_eq_some.mp h
    exact ⟨before, after, rfl, hbefore, hslot⟩

/-! ### What a step does -/

def AnnealState.assignAll (S : AnnealState) (pairs : List (Nat × Nat)) : AnnealState :=
  pairs.foldl (fun S p => S.assign p.1 p.2) S

namespace AnnealState

variable (S : AnnealState)

theorem assignAll_append (pairs more : List (Nat × Nat)) :
    S.assignAll (pairs ++ more) = (S.assignAll pairs).assignAll more := List.foldl_append

theorem assignAll_used (pairs : List (Nat × Nat)) (i : Nat) :
    (S.assignAll pairs).used i = true ↔ S.used i = true ∨ i ∈ pairs.map (·.2) := by
  induction pairs generalizing S with
  | nil => simp [assignAll]
  | cons p pairs ih =>
      have hstep : S.assignAll (p :: pairs) = (S.assign p.1 p.2).assignAll pairs := rfl
      rw [hstep, ih, List.map_cons, List.mem_cons]
      by_cases hi : i = p.2
      · subst hi
        simp [assign]
      · simp [assign, hi]

theorem assignAll_of_notMem {pairs : List (Nat × Nat)} {i : Nat} (hi : i ∉ pairs.map (·.1)) :
    (S.assignAll pairs).assignment i = S.assignment i := by
  induction pairs generalizing S with
  | nil => rfl
  | cons p pairs ih =>
      rw [List.map_cons, List.mem_cons, not_or] at hi
      have hstep : S.assignAll (p :: pairs) = (S.assign p.1 p.2).assignAll pairs := rfl
      rw [hstep, ih _ hi.2]
      exact Function.update_of_ne hi.1 _ _

theorem assignAll_of_mem {pairs : List (Nat × Nat)} (hnodup : (pairs.map (·.1)).Nodup)
    {p : Nat × Nat} (hp : p ∈ pairs) : (S.assignAll pairs).assignment p.1 = p.2 := by
  induction pairs generalizing S with
  | nil => exact absurd hp List.not_mem_nil
  | cons q pairs ih =>
      rw [List.map_cons, List.nodup_cons] at hnodup
      have hstep : S.assignAll (q :: pairs) = (S.assign q.1 q.2).assignAll pairs := rfl
      rw [hstep]
      rcases List.mem_cons.mp hp with rfl | hp
      · rw [assignAll_of_notMem _ hnodup.1]
        exact Function.update_self _ _ _
      · exact ih _ hnodup.2 hp

/-- Assigning looks at nothing but the flags and the assignment. -/
theorem assignAll_with (placedPins : List Nat) (pairs : List (Nat × Nat)) :
    ({ S with placedPins } : AnnealState).assignAll pairs =
      { S.assignAll pairs with placedPins } := by
  induction pairs generalizing S with
  | nil => rfl
  | cons p pairs ih => exact ih (S.assign p.1 p.2)

theorem assignAll_slotIdx (slotIdx : Nat) (pairs : List (Nat × Nat)) :
    ({ S with slotIdx } : AnnealState).assignAll pairs = { S.assignAll pairs with slotIdx } := by
  induction pairs generalizing S with
  | nil => rfl
  | cons p pairs ih => exact ih (S.assign p.1 p.2)

theorem assignAll_assignment_congr {S T : AnnealState} (h : S.assignment = T.assignment)
    (pairs : List (Nat × Nat)) :
    (S.assignAll pairs).assignment = (T.assignAll pairs).assignment := by
  induction pairs generalizing S T with
  | nil => exact h
  | cons p pairs ih =>
      exact ih (congrArg (fun f : Nat → Nat => Function.update f p.1 p.2) h)

theorem assignAll_used_congr {S T : AnnealState} (h : S.used = T.used)
    (pairs : List (Nat × Nat)) : (S.assignAll pairs).used = (T.assignAll pairs).used := by
  induction pairs generalizing S T with
  | nil => exact h
  | cons p pairs ih =>
      exact ih (congrArg (fun f : Nat → Bool => Function.update f p.2 true) h)

end AnnealState

namespace Annealer

variable (A : Annealer)

/-- The pins that an operation is about. -/
def opPins : AnnealOp → List Nat
  | .group k => A.groupAt k
  | .pin _ i => [i]

/-- The pins that an operation marks as placed. -/
def marks (pairs : List (Nat × Nat)) : AnnealOp → List Nat
  | .group _ => (pairs.map (·.1)).reverse
  | .pin _ _ => (pairs.map (·.1)).tail

variable {A}

theorem placeGroup_eq (pins : List Nat) (slot : Nat) (S : AnnealState) :
    A.placeGroup pins slot S = (A.pairsFrom pins slot).map fun pairs =>
      { S.assignAll pairs with placedPins := (pairs.map (·.1)).reverse ++ S.placedPins } := by
  induction pins generalizing slot S with
  | nil => rfl
  | cons i pins ih =>
      rw [placeGroup, pairsFrom]
      cases (A.pin i).mirrored with
      | none =>
          dsimp only
          rw [ih]
          cases A.pairsFrom pins (slot + 1) with
          | error e => rfl
          | ok pairs =>
              simp only [Except.map, AnnealState.assignAll_with, List.map_cons,
                List.reverse_cons, List.append_assoc, List.singleton_append]
              rfl
      | some j =>
          cases A.getMirroredSlotIdx slot with
          | error e => rfl
          | ok mirrored =>
              dsimp only
              rw [ih]
              cases A.pairsFrom pins (slot + 1) with
              | error e => rfl
              | ok pairs =>
                  simp only [Except.map, AnnealState.assignAll_with, List.map_cons,
                    List.reverse_cons, List.append_assoc, List.singleton_append]
                  rfl

theorem placePin_eq (i slot : Nat) (S : AnnealState) :
    A.placePin i slot S = (A.pairsFrom [i] slot).map fun pairs =>
      { S.assignAll pairs with placedPins := (pairs.map (·.1)).tail ++ S.placedPins } := by
  simp only [placePin, pairsFrom]
  cases (A.pin i).mirrored with
  | none => rfl
  | some j =>
      cases A.getMirroredSlotIdx slot with
      | error e => rfl
      | ok mirrored => rfl

/-- What an operation leaves that puts these pins on their slots. -/
def afterOp (S : AnnealState) (op : AnnealOp) (pairs : List (Nat × Nat)) (slotIdx : Nat) :
    AnnealState :=
  { S.assignAll pairs with placedPins := marks pairs op ++ S.placedPins, slotIdx }

theorem place_eq (slot slotIdx : Nat) (S : AnnealState) (op : AnnealOp) :
    A.place slot { S with slotIdx } op =
      (A.pairsFrom (A.opPins op) slot).map fun pairs => afterOp S op pairs slotIdx := by
  cases op with
  | group k =>
      rw [place, placeGroup_eq]
      apply congrArg (Except.map · _)
      funext pairs
      rw [AnnealState.assignAll_slotIdx]
      rfl
  | pin onlyConstraints i =>
      rw [place, placePin_eq]
      apply congrArg (Except.map · _)
      funext pairs
      rw [AnnealState.assignAll_slotIdx]
      rfl

theorem map_eq_ok {B C : Type} {x : Except AnnealError B} {f : B → C} {c : C} :
    x.map f = .ok c ↔ ∃ b, x = .ok b ∧ f b = c := by
  cases x with
  | error e => simp [Except.map]
  | ok b => simp [Except.map]

theorem step_eq_ok {fuel : Nat} {S S' : AnnealState} {op : AnnealOp} :
    A.step fuel S op = .ok S' ↔
      (A.choose fuel S op = .ok none ∧ S' = S) ∨
      ∃ slot slotIdx pairs, A.choose fuel S op = .ok (some (slot, slotIdx)) ∧
        A.pairsFrom (A.opPins op) slot = .ok pairs ∧ S' = afterOp S op pairs slotIdx := by
  rw [step]
  cases hchoose : A.choose fuel S op with
  | error e => simp
  | ok chosen =>
      cases chosen with
      | none => simp [eq_comm]
      | some c =>
          obtain ⟨slot, slotIdx⟩ := c
          dsimp only
          rw [place_eq, map_eq_ok]
          constructor
          · rintro ⟨pairs, hpairs, rfl⟩
            exact .inr ⟨slot, slotIdx, pairs, rfl, hpairs, rfl⟩
          · rintro (⟨hnone, -⟩ | ⟨slot', slotIdx', pairs, hsame, hpairs, rfl⟩)
            · exact absurd hnone (by simp)
            · obtain ⟨rfl, rfl⟩ := Prod.mk.inj (Option.some.inj (Except.ok.inj hsame))
              exact ⟨pairs, hpairs, rfl⟩

theorem drawSlot_eq_ok {B : Type} {fuel : Nat} {test : Nat → Except AnnealError (Option B)}
    {draw : Nat → Nat} {slot : Nat} {b : B} :
    drawSlot fuel test draw = .ok (slot, b) ↔
      Found test ((List.range fuel).map draw) slot b := by
  rw [found_iff, drawSlot]
  split
  next e h => simp [h]
  next h => simp [h]
  next n found b' h => simp [h]

theorem nextSlot_eq_ok {B : Type} {S : AnnealState} {test : Nat → Except AnnealError (Option B)}
    {slot slotIdx : Nat} : A.nextSlot S test = .ok (slot, slotIdx) ↔
      ∃ n b, searchSlots test (A.order.drop S.slotIdx) = .ok (some (n, slot, b)) ∧
        slotIdx = S.slotIdx + n + 1 := by
  rw [nextSlot]
  split
  next e h => simp [h]
  next h => simp [h]
  next n found b h =>
    simp only [h, Except.ok.injEq, Prod.mk.injEq, Option.some.injEq]
    constructor
    · rintro ⟨rfl, rfl⟩
      exact ⟨n, b, ⟨rfl, rfl, rfl⟩, rfl⟩
    · rintro ⟨n', b', ⟨rfl, rfl, rfl⟩, rfl⟩
      exact ⟨rfl, rfl⟩

theorem drawSlot_mono {B : Type} {fuel fuel' : Nat} (hle : fuel ≤ fuel')
    {test : Nat → Except AnnealError (Option B)} {draw : Nat → Nat} {r : Nat × B}
    (h : drawSlot fuel test draw = .ok r) : drawSlot fuel' test draw = .ok r := by
  obtain ⟨slot, b⟩ := r
  obtain ⟨n, hsearch⟩ := found_iff.mp (drawSlot_eq_ok.mp h)
  exact drawSlot_eq_ok.mpr (found_iff.mpr ⟨n, searchSlots_draws hle hsearch⟩)

/-- More fuel is only more draws. -/
theorem choose_mono {fuel fuel' : Nat} (hle : fuel ≤ fuel') {S : AnnealState} {op : AnnealOp}
    {r : Option (Nat × Nat)} (h : A.choose fuel S op = .ok r) : A.choose fuel' S op = .ok r := by
  cases op with
  | group k =>
      rw [choose] at h ⊢
      cases hconstraint : (A.pin ((A.groupAt k).headD 0)).constraint with
      | some range =>
          simp only [hconstraint, map_eq_ok] at h ⊢
          obtain ⟨b, hb, hr⟩ := h
          exact ⟨b, drawSlot_mono hle hb, hr⟩
      | none => simpa only [hconstraint] using h
  | pin onlyConstraints i =>
      rw [choose] at h ⊢
      split at h
      next hplaced => rwa [if_pos hplaced]
      next hplaced =>
        rw [if_neg hplaced]
        cases hconstraint : (A.pin i).constraint with
        | none => simpa only [hconstraint] using h
        | some range =>
            simp only [hconstraint] at h ⊢
            split at h
            next honly =>
              rw [if_pos honly]
              obtain ⟨b, hb, hr⟩ := map_eq_ok.mp h
              exact map_eq_ok.mpr ⟨b, drawSlot_mono hle hb, hr⟩
            next honly => rwa [if_neg honly]

/-- A step is in order when it finds a slot, if it looks for one, and takes free slots from
there. -/
theorem stepInOrder_iff {S : AnnealState} {op : AnnealOp} :
    A.StepInOrder S op ↔ ∃ fuel, A.choose fuel S op = .ok none ∨
      ∃ slot slotIdx, A.choose fuel S op = .ok (some (slot, slotIdx)) ∧
        A.TakesFree S (A.opPins op) slot := by
  cases op with
  | group k =>
      cases hconstraint : (A.pin ((A.groupAt k).headD 0)).constraint with
      | some range =>
          simp only [StepInOrder, choose, hconstraint, map_eq_ok]
          constructor
          · rintro ⟨draws, drawn, slot, hfound, hfree⟩
            exact ⟨draws, .inr ⟨slot, _, ⟨_, drawSlot_eq_ok.mpr hfound, rfl⟩, hfree⟩⟩
          · rintro ⟨fuel, ⟨_, _, hnone⟩ | ⟨slot, slotIdx, ⟨⟨drawn, window⟩, hdraw, hsame⟩, hfree⟩⟩
            · exact absurd hnone (by simp)
            · obtain ⟨rfl, -⟩ := Prod.mk.inj (Option.some.inj hsame)
              exact ⟨fuel, drawn, window, drawSlot_eq_ok.mp hdraw, hfree⟩
      | none =>
          simp only [StepInOrder, choose, hconstraint, map_eq_ok]
          constructor
          · rintro ⟨slot, window, hfound, hfree⟩
            obtain ⟨n, hn⟩ := found_iff.mp hfound
            exact ⟨0, .inr ⟨slot, _, ⟨_, nextSlot_eq_ok.mpr ⟨n, window, hn, rfl⟩, rfl⟩, hfree⟩⟩
          · rintro ⟨fuel, ⟨_, _, hnone⟩ | ⟨slot, slotIdx, ⟨b, hnext, hsame⟩, hfree⟩⟩
            · exact absurd hnone (by simp)
            · obtain rfl := Option.some.inj hsame
              obtain ⟨n, window, hn, -⟩ := nextSlot_eq_ok.mp hnext
              exact ⟨slot, window, found_iff.mpr ⟨n, hn⟩, hfree⟩
  | pin onlyConstraints i =>
      rw [StepInOrder]
      simp only [choose]
      by_cases hplaced : i ∈ S.placedPins
      · simp [hplaced]
      · simp only [hplaced, false_or, if_false]
        cases hconstraint : (A.pin i).constraint with
        | some range =>
            cases onlyConstraints with
            | false => simp
            | true =>
                simp only [Bool.true_eq_false, false_or, if_true, map_eq_ok]
                constructor
                · rintro ⟨draws, slot, hfound, hfree⟩
                  exact ⟨draws, .inr ⟨slot, _, ⟨_, drawSlot_eq_ok.mpr hfound, rfl⟩, hfree⟩⟩
                · rintro ⟨fuel, ⟨_, _, hnone⟩ | ⟨slot, slotIdx, ⟨⟨drawn, b⟩, hdraw, hsame⟩, hfree⟩⟩
                  · exact absurd hnone (by simp)
                  · obtain ⟨rfl, -⟩ := Prod.mk.inj (Option.some.inj hsame)
                    exact ⟨fuel, drawn, drawSlot_eq_ok.mp hdraw, hfree⟩
        | none =>
            cases onlyConstraints with
            | true => simp
            | false =>
                simp only [Bool.false_eq_true, false_or, if_false, map_eq_ok]
                constructor
                · rintro ⟨slot, hfound, hfree⟩
                  obtain ⟨n, hn⟩ := found_iff.mp hfound
                  exact ⟨0, .inr ⟨slot, _, ⟨_, nextSlot_eq_ok.mpr ⟨n, (), hn, rfl⟩, rfl⟩, hfree⟩⟩
                · rintro ⟨fuel, ⟨_, _, hnone⟩ | ⟨slot, slotIdx, ⟨b, hnext, hsame⟩, hfree⟩⟩
                  · exact absurd hnone (by simp)
                  · obtain rfl := Option.some.inj hsame
                    obtain ⟨n, b, hn, -⟩ := nextSlot_eq_ok.mp hnext
                    exact ⟨slot, found_iff.mpr ⟨n, hn⟩, hfree⟩

end Annealer

end OpenRoad.Ppl
