import OpenRoad.DbWireWalk
import OpenRoad.DbWireSegment
import OpenRoad.Run

/-!
The way back from an entry as a list. As junctions name earlier entries, it ends at the first entry of
the wire, and the loops of `getSegment` take its entries in order.
-/

namespace OpenRoad.Db
open WireOp StopFold

/-- The entries on the way back, with their indices, at most `fuel` of them. -/
def wayBack (ops : List WireEntry) : Nat → Option Nat → List (Nat × WireEntry)
  | 0, _ => []
  | _ + 1, none => []
  | fuel + 1, some i =>
      match ops[i]? with
      | none => []
      | some entry => (i, entry) :: wayBack ops fuel (prevIdx entry i)

/-- All entries on the way back. -/
def way (ops : List WireEntry) (idx : Option Nat) : List (Nat × WireEntry) :=
  wayBack ops ops.length idx

variable {ops : List WireEntry} {i : Nat} {entry : WireEntry}

theorem wayBack_some (hentry : ops[i]? = some entry) (fuel : Nat) :
    wayBack ops (fuel + 1) (some i) = (i, entry) :: wayBack ops fuel (prevIdx entry i) := by
  rw [wayBack, hentry]

theorem wayBack_none (fuel : Nat) : wayBack ops fuel none = [] := by
  cases fuel <;> rfl

/-- The way has at most one more entry than the index it starts at. -/
theorem wayBack_fuel (hback : BackwardJunctions ops) {fuel fuel' : Nat} (hfuel : i < fuel)
    (hfuel' : i < fuel') : wayBack ops fuel (some i) = wayBack ops fuel' (some i) := by
  induction fuel generalizing fuel' i with
  | zero => exact absurd hfuel (Nat.not_lt_zero i)
  | succ fuel ih =>
      obtain ⟨fuel', rfl⟩ : ∃ k, fuel' = k + 1 := ⟨fuel' - 1, by omega⟩
      cases hentry : ops[i]? with
      | none => rw [wayBack, wayBack, hentry]
      | some entry =>
          rw [wayBack_some hentry, wayBack_some hentry]
          cases hprev : prevIdx entry i with
          | none => rw [wayBack_none, wayBack_none]
          | some j =>
              have hlt := hback.prevIdx_lt hentry hprev
              rw [ih (show j < fuel by omega) (show j < fuel' by omega)]

theorem way_some (hback : BackwardJunctions ops) (hentry : ops[i]? = some entry) :
    way ops (some i) = (i, entry) :: way ops (prevIdx entry i) := by
  have hi : i < ops.length := (List.getElem?_eq_some_iff.mp hentry).1
  obtain ⟨k, hk⟩ : ∃ k, ops.length = k + 1 := ⟨ops.length - 1, by omega⟩
  unfold way
  rw [hk, wayBack_some hentry]
  cases hprev : prevIdx entry i with
  | none => rw [wayBack_none, wayBack_none]
  | some j =>
      have hlt := hback.prevIdx_lt hentry hprev
      rw [wayBack_fuel hback (show j < k by omega) (show j < k + 1 by omega)]

theorem way_none : way ops none = [] := wayBack_none _

theorem way_of_length_le (h : ops.length ≤ i) : way ops (some i) = [] := by
  unfold way
  cases ops.length with
  | zero => rfl
  | succ k => rw [wayBack, List.getElem?_eq_none h]

/-- What comes after an entry of the way is the way from there. -/
theorem way_suffix (hback : BackwardJunctions ops) {idx : Option Nat}
    {taken rest : List (Nat × WireEntry)} (h : way ops idx = taken ++ (i, entry) :: rest) :
    way ops (some i) = (i, entry) :: rest := by
  induction taken generalizing idx with
  | nil =>
      cases idx with
      | none =>
          rw [way_none] at h
          cases h
      | some j =>
          cases hentry : ops[j]? with
          | none =>
              rw [way_of_length_le (List.getElem?_eq_none_iff.mp hentry)] at h
              cases h
          | some entry' =>
              rw [way_some hback hentry] at h
              obtain ⟨heq, htail⟩ := List.cons.inj h
              obtain ⟨rfl, rfl⟩ := Prod.mk.inj heq
              rw [way_some hback hentry, htail]
  | cons a taken ih =>
      cases idx with
      | none =>
          rw [way_none] at h
          cases h
      | some j =>
          cases hentry : ops[j]? with
          | none =>
              rw [way_of_length_le (List.getElem?_eq_none_iff.mp hentry)] at h
              cases h
          | some entry' =>
              rw [way_some hback hentry] at h
              exact ih (List.cons.inj h).2

theorem way_mem (hback : BackwardJunctions ops) {j : Nat} (h : (i, entry) ∈ way ops (some j)) :
    ops[i]? = some entry ∧ i ≤ j := by
  induction j using Nat.strongRecOn with
  | ind j ih =>
      cases hentry : ops[j]? with
      | none =>
          rw [way_of_length_le (List.getElem?_eq_none_iff.mp hentry)] at h
          cases h
      | some entry' =>
          rw [way_some hback hentry] at h
          rcases List.mem_cons.mp h with heq | h
          · obtain ⟨rfl, rfl⟩ := Prod.mk.inj heq
            exact ⟨hentry, le_rfl⟩
          · cases hprev : prevIdx entry' j with
            | none =>
                rw [hprev, way_none] at h
                cases h
            | some k =>
                rw [hprev] at h
                have hlt := hback.prevIdx_lt hentry hprev
                obtain ⟨hi, hle⟩ := ih k hlt h
                exact ⟨hi, by omega⟩

/-- The walk of `Found` is the way. -/
theorem found_iff_way (hback : BackwardJunctions ops) {α : Type} {f : WireEntry → Option α} {v : α} :
    Found f ops i v ↔ (way ops (some i)).findSome? (fun e => f e.2) = some v := by
  induction i using Nat.strongRecOn with
  | ind i ih =>
      cases hentry : ops[i]? with
      | none =>
          rw [way_of_length_le (List.getElem?_eq_none_iff.mp hentry)]
          refine iff_of_false (fun h => ?_) (by simp)
          obtain ⟨entry, hsome⟩ := h.exists_entry
          cases hentry.symm.trans hsome
      | some entry =>
          rw [found_iff hentry, way_some hback hentry, List.findSome?_cons]
          cases hf : f entry with
          | some u => simp
          | none =>
              cases hprev : prevIdx entry i with
              | none => simp [way_none]
              | some j => simp [← ih j (hback.prevIdx_lt hentry hprev)]

/-! ### Loops along the way -/

variable {σ : Type} {stop : σ → Bool} {step : σ → Nat → WireEntry → σ}

/-- With fuel for the way, the loop takes the entries of the way in order. -/
theorem walkUntil_eq (hback : BackwardJunctions ops) {fuel : Nat} {idx : Option Nat} (w : σ)
    (hfuel : ∀ i, idx = some i → i + 1 < fuel) (hpos : 0 < fuel) :
    (walkUntil stop step ops fuel w idx).map (fun r => (r.1, way ops r.2)) =
      runUntil stop (fun w e => step w e.1 e.2) w (way ops idx) := by
  induction fuel generalizing w idx with
  | zero => exact absurd hpos (lt_irrefl 0)
  | succ fuel ih =>
      cases hstop : stop w with
      | true =>
          unfold walkUntil
          rw [hstop, runUntil_of_stop hstop]
          rfl
      | false =>
          unfold walkUntil
          rw [hstop]
          cases idx with
          | none =>
              rw [way_none, runUntil_nil hstop]
              rfl
          | some i =>
              cases hentry : ops[i]? with
              | none =>
                  rw [way_of_length_le (List.getElem?_eq_none_iff.mp hentry), runUntil_nil hstop]
                  simp [hentry]
              | some entry =>
                  rw [way_some hback hentry, runUntil_cons hstop, ← ih]
                  · simp [hentry]
                  · intro j hj
                    have hlt := hback.prevIdx_lt hentry hj
                    have hi := hfuel i rfl
                    omega
                  · have hi := hfuel i rfl
                    omega

/-- The loop does not leave the entries it starts among. -/
theorem walkUntil_lt (hback : BackwardJunctions ops) {fuel n : Nat} {idx : Option Nat} {w w' : σ}
    (hidx : ∀ i, idx = some i → i < n) {j : Nat}
    (h : walkUntil stop step ops fuel w idx = some (w', some j)) : j < n := by
  induction fuel generalizing w idx with
  | zero => cases h
  | succ fuel ih =>
      unfold walkUntil at h
      split_ifs at h
      · obtain ⟨-, rfl⟩ := Prod.mk.inj (Option.some.inj h)
        exact hidx j rfl
      · cases idx with
        | none => cases h
        | some i =>
            dsimp only at h
            cases hentry : ops[i]? with
            | none =>
                rw [hentry] at h
                cases h
            | some entry =>
                rw [hentry] at h
                exact ih (fun k hk => (hback.prevIdx_lt hentry hk).trans (hidx i rfl)) h

/-- Where the entries of the way are taken, so does the loop. -/
theorem walkUntil_of_way (hback : BackwardJunctions ops) {fuel : Nat} {idx : Option Nat} {w w' : σ}
    (hfuel : ∀ i, idx = some i → i + 1 < fuel) (hpos : 0 < fuel) {rest : List (Nat × WireEntry)}
    (h : runUntil stop (fun w e => step w e.1 e.2) w (way ops idx) = some (w', rest)) :
    ∃ idx', walkUntil stop step ops fuel w idx = some (w', idx') ∧ way ops idx' = rest := by
  rw [← walkUntil_eq hback w hfuel hpos] at h
  obtain ⟨⟨w'', idx'⟩, hwalk, heq⟩ := Option.map_eq_some_iff.mp h
  obtain ⟨rfl, rfl⟩ := Prod.mk.inj heq
  exact ⟨idx', hwalk, rfl⟩

end OpenRoad.Db
