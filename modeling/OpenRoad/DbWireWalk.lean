import OpenRoad.DbWireCall

/-!
What the walk back of `getPrevPoint` finds. It looks for an x, a y and a layer at once, but on a way
that does not depend on what was found: each is given by the first entry on it that has one.
-/

namespace OpenRoad.Db

open WireOp

/-! ### What entries give -/

def xOf (entry : WireEntry) : Option Int :=
  if WireOp.ofOpcode entry.1 = some WOP_X then some entry.2 else none

def yOf (entry : WireEntry) : Option Int :=
  if WireOp.ofOpcode entry.1 = some WOP_Y then some entry.2 else none

/-- The layer that the walk back takes from an entry: it does not know virtual wires. -/
def layerOf (tech : DbTech) (entry : WireEntry) : Option Nat :=
  match WireOp.ofOpcode entry.1 with
  | some .WOP_PATH | some .WOP_SHORT => some entry.2.toNat
  | some .WOP_VIA => some ((tech.getVia entry.2.toNat).exitLayer entry.1)
  | some .WOP_TECH_VIA => some ((tech.getTechVia entry.2.toNat).exitLayer entry.1)
  | _ => none

/-- The walk back from an entry gets to one that gives a value. -/
inductive Found {α : Type} (f : WireEntry → Option α) (ops : List WireEntry) : Nat → α → Prop where
  | here {idx : Nat} {entry : WireEntry} {v : α} (hentry : ops[idx]? = some entry)
      (hv : f entry = some v) : Found f ops idx v
  | back {idx i : Nat} {entry : WireEntry} {v : α} (hentry : ops[idx]? = some entry)
      (hnone : f entry = none) (hprev : prevIdx entry idx = some i) (hrest : Found f ops i v) :
      Found f ops idx v

/-- Entries that are no junctions. -/
theorem BackwardJunctions.append_others {ops entries : List WireEntry} (h : BackwardJunctions ops)
    (hno : ∀ entry ∈ entries, WireOp.ofOpcode entry.1 ≠ some WOP_JUNCTION) :
    BackwardJunctions (ops ++ entries) := by
  intro i entry hentry hjunction
  by_cases hi : i < ops.length
  · rw [List.getElem?_append_left hi] at hentry
    exact h i entry hentry hjunction
  · rw [List.getElem?_append_right (Nat.le_of_not_lt hi)] at hentry
    exact absurd hjunction (hno entry (List.mem_of_getElem? hentry))

theorem BackwardJunctions.left {ops entries : List WireEntry}
    (h : BackwardJunctions (ops ++ entries)) : BackwardJunctions ops := by
  intro i entry hentry hjunction
  refine h i entry ?_ hjunction
  rw [List.getElem?_append_left (List.getElem?_eq_some_iff.mp hentry).1, hentry]

section Found

variable {α : Type} {f : WireEntry → Option α} {ops : List WireEntry} {idx : Nat} {v : α}

/-- The entries after the one the walk starts at play no part. -/
theorem Found.append (h : Found f ops idx v) (rest : List WireEntry) :
    Found f (ops ++ rest) idx v := by
  have hold : ∀ {i : Nat} {entry : WireEntry}, ops[i]? = some entry →
      (ops ++ rest)[i]? = some entry := fun hentry => by
    rw [List.getElem?_append_left (List.getElem?_eq_some_iff.mp hentry).1, hentry]
  induction h with
  | here hentry hv => exact .here (hold hentry) hv
  | back hentry hnone hprev _ ih => exact .back (hold hentry) hnone hprev ih

theorem Found.of_append (hback : BackwardJunctions ops) {rest : List WireEntry}
    (h : Found f (ops ++ rest) idx v) (hidx : idx < ops.length) : Found f ops idx v := by
  induction h with
  | here hentry hv =>
      rw [List.getElem?_append_left hidx] at hentry
      exact .here hentry hv
  | back hentry hnone hprev _ ih =>
      rw [List.getElem?_append_left hidx] at hentry
      exact .back hentry hnone hprev (ih (Nat.lt_trans (hback.prevIdx_lt hentry hprev) hidx))

theorem found_append (hback : BackwardJunctions ops) (rest : List WireEntry)
    (hidx : idx < ops.length) : Found f (ops ++ rest) idx v ↔ Found f ops idx v :=
  ⟨fun h => h.of_append hback hidx, fun h => h.append rest⟩

/-- The entry gives the value itself, or the walk goes on. -/
theorem found_iff {entry : WireEntry} (hentry : ops[idx]? = some entry) :
    Found f ops idx v ↔
      f entry = some v ∨ f entry = none ∧ ∃ i, prevIdx entry idx = some i ∧ Found f ops i v := by
  constructor
  · intro h
    cases h with
    | here hentry' hv =>
        cases hentry.symm.trans hentry'
        exact Or.inl hv
    | back hentry' hnone hprev hrest =>
        cases hentry.symm.trans hentry'
        exact Or.inr ⟨hnone, _, hprev, hrest⟩
  · rintro (hv | ⟨hnone, i, hprev, hrest⟩)
    · exact .here hentry hv
    · exact .back hentry hnone hprev hrest

theorem Found.unique (h : Found f ops idx v) {u : α} (h' : Found f ops idx u) : v = u := by
  induction h with
  | here hentry hv =>
      rw [found_iff hentry, hv] at h'
      obtain h' | ⟨h', -⟩ := h'
      · exact Option.some.inj h'
      · cases h'
  | back hentry hnone hprev _ ih =>
      rw [found_iff hentry, hnone] at h'
      obtain h' | ⟨-, i, hi, hrest⟩ := h'
      · cases h'
      · cases hprev.symm.trans hi
        exact ih hrest

theorem Found.exists_entry (h : Found f ops idx v) : ∃ entry, ops[idx]? = some entry := by
  cases h with
  | here hentry _ => exact ⟨_, hentry⟩
  | back hentry _ _ _ => exact ⟨_, hentry⟩

theorem not_found_nil : ¬Found f [] idx v := fun h => by
  cases h with
  | here hentry _ => cases hentry
  | back hentry _ _ _ => cases hentry

/-! ### The last entries -/

theorem found_last_here {entry : WireEntry} {u : α} (hu : f entry = some u) :
    Found f (ops ++ [entry]) ops.length v ↔ v = u := by
  rw [found_iff List.getElem?_concat_length, hu]
  simp [eq_comm]

theorem found_last_junction (hback : BackwardJunctions ops) {op : UInt8} {j : Nat}
    (hop : WireOp.ofOpcode op = some WOP_JUNCTION) (hj : j < ops.length)
    (hnone : f (op, (j : Int)) = none) :
    Found f (ops ++ [(op, (j : Int))]) ops.length v ↔ Found f ops j v := by
  have hprev : prevIdx (op, (j : Int)) ops.length = some j := if_pos hop
  rw [found_iff List.getElem?_concat_length, hnone, ← found_append hback [(op, (j : Int))] hj]
  constructor
  · rintro (h | ⟨-, i, hi, hrest⟩)
    · cases h
    · cases hprev.symm.trans hi
      exact hrest
  · intro h
    exact Or.inr ⟨rfl, j, hprev, h⟩

theorem found_last_skip (hback : BackwardJunctions ops) {entry : WireEntry}
    (hnone : f entry = none) (hop : WireOp.ofOpcode entry.1 ≠ some WOP_JUNCTION) :
    Found f (ops ++ [entry]) ops.length v ↔ Found f ops (ops.length - 1) v := by
  rw [found_iff List.getElem?_concat_length, hnone]
  unfold prevIdx
  rw [if_neg hop]
  cases hlen : ops.length with
  | zero =>
      rw [List.eq_nil_of_length_eq_zero hlen]
      simp [not_found_nil]
  | succ n =>
      have hn : n < ops.length := by rw [hlen]; exact Nat.lt_succ_self n
      constructor
      · rintro (h | ⟨-, i, hi, hrest⟩)
        · cases h
        · cases hi
          exact hrest.of_append hback hn
      · intro h
        exact Or.inr ⟨rfl, n, rfl, h.append _⟩

/-- Entries that give nothing and are no junctions. -/
def Skipped (f : WireEntry → Option α) (entries : List WireEntry) : Prop :=
  ∀ entry ∈ entries, f entry = none ∧ WireOp.ofOpcode entry.1 ≠ some WOP_JUNCTION

/-- The walk from the last entry goes past entries that give nothing. -/
theorem found_skip (hback : BackwardJunctions ops) {entries : List WireEntry}
    (hskip : Skipped f entries) : Found f (ops ++ entries) ((ops ++ entries).length - 1) v ↔
      Found f ops (ops.length - 1) v := by
  induction entries generalizing ops with
  | nil => rw [List.append_nil]
  | cons entry entries ih =>
      obtain ⟨⟨hnone, hop⟩, hrest⟩ := List.forall_mem_cons.mp hskip
      have hback' : BackwardJunctions (ops ++ [entry]) :=
        hback.append_others fun e he => List.mem_singleton.mp he ▸ hop
      have hlen : (ops ++ [entry]).length - 1 = ops.length := by simp
      rw [← found_last_skip hback hnone hop, ← hlen, ← ih hback' hrest, List.append_assoc]
      rfl

end Found

/-! ### The walk -/

variable {tech : DbTech} {ops : List WireEntry}

/-- What is still looked for is found from `idx` on; what is not stays as it is. -/
def Sought {α : Type} (b : Bool) (f : WireEntry → Option α) (ops : List WireEntry) (idx : Nat)
    (old v : α) : Prop :=
  if b then Found f ops idx v else v = old

section Sought

variable {α : Type} {b : Bool} {f : WireEntry → Option α} {idx i : Nat} {old v : α}
  {entry : WireEntry}

theorem sought_step (hentry : ops[idx]? = some entry) (hprev : prevIdx entry idx = some i) :
    Sought b f ops idx old v ↔
      Sought (b && (f entry).isNone) f ops i (if b then (f entry).getD old else old) v := by
  unfold Sought
  cases b with
  | false => simp
  | true =>
      rw [if_pos rfl, if_pos rfl, found_iff hentry]
      cases hf : f entry with
      | none => simp [hprev]
      | some u => simp [eq_comm]

theorem sought_end (hentry : ops[idx]? = some entry) (hb : (b && (f entry).isNone) = false) :
    Sought b f ops idx old v ↔ v = if b then (f entry).getD old else old := by
  unfold Sought
  cases b with
  | false => simp
  | true =>
      rw [if_pos rfl, if_pos rfl, found_iff hentry]
      cases hf : f entry with
      | none => simp [hf] at hb
      | some u => simp [eq_comm]

/-- The walk goes on while something is looked for. -/
theorem Sought.prev (h : Sought b f ops idx old v) (hentry : ops[idx]? = some entry)
    (hb : (b && (f entry).isNone) = true) : ∃ i, prevIdx entry idx = some i := by
  obtain ⟨rfl, hnone⟩ := Bool.and_eq_true_iff.mp hb
  rw [Sought, if_pos rfl, found_iff hentry] at h
  obtain hv | ⟨-, i, hi, -⟩ := h
  · rw [hv] at hnone
    cases hnone
  · exact ⟨i, hi⟩

end Sought

theorem visit_eq (w : PrevPoint) (entry : WireEntry) : w.visit tech entry =
    { lookForX := w.lookForX && (xOf entry).isNone
      lookForY := w.lookForY && (yOf entry).isNone
      getLayer := w.getLayer && (layerOf tech entry).isNone
      pnt := {
        x := if w.lookForX then (xOf entry).getD w.pnt.x else w.pnt.x
        y := if w.lookForY then (yOf entry).getD w.pnt.y else w.pnt.y
        layer := if w.getLayer then (layerOf tech entry).getD w.pnt.layer else w.pnt.layer } } := by
  obtain ⟨lookForX, lookForY, getLayer, pnt⟩ := w
  unfold PrevPoint.visit xOf yOf layerOf
  cases hop : WireOp.ofOpcode entry.1 with
  | none => simp
  | some op => cases op <;> cases lookForX <;> cases lookForY <;> cases getLayer <;> simp

theorem prevPointLoop_iff (hback : BackwardJunctions ops) {fuel idx : Nat} (hfuel : idx < fuel)
    {w : PrevPoint} (hw : w.found = false) {pnt : WirePoint} :
    prevPointLoop tech ops fuel idx w = some pnt ↔
      Sought w.lookForX xOf ops idx w.pnt.x pnt.x ∧ Sought w.lookForY yOf ops idx w.pnt.y pnt.y ∧
      Sought w.getLayer (layerOf tech) ops idx w.pnt.layer pnt.layer := by
  induction fuel generalizing idx w with
  | zero => exact absurd hfuel (Nat.not_lt_zero _)
  | succ fuel ih =>
      rw [prevPointLoop]
      cases hentry : ops[idx]? with
      | none =>
          -- something is looked for, and not found from here
          refine iff_of_false (by simp) fun h => ?_
          have hsought : w.lookForX = true ∨ w.lookForY = true ∨ w.getLayer = true := by
            unfold PrevPoint.found at hw
            cases hX : w.lookForX <;> cases hY : w.lookForY <;> cases hL : w.getLayer <;> simp_all
          obtain ⟨hx, hy, hlayer⟩ := h
          have hno : ∃ entry, ops[idx]? = some entry := by
            obtain hX | hY | hL := hsought
            · rw [hX] at hx
              exact Found.exists_entry hx
            · rw [hY] at hy
              exact Found.exists_entry hy
            · rw [hL] at hlayer
              exact Found.exists_entry hlayer
          obtain ⟨entry, hsome⟩ := hno
          cases hentry.symm.trans hsome
      | some entry =>
          have hvisit : w.visit tech entry = _ := visit_eq w entry
          dsimp only
          cases hfound : (w.visit tech entry).found with
          | true =>
              rw [if_pos rfl]
              rw [hvisit] at hfound ⊢
              simp only [PrevPoint.found, Bool.and_eq_true, Bool.not_eq_true'] at hfound
              obtain ⟨⟨hX, hY⟩, hL⟩ := hfound
              obtain ⟨x, y, layer⟩ := pnt
              rw [sought_end hentry hX, sought_end hentry hY, sought_end hentry hL,
                Option.some_inj, WirePoint.mk.injEq]
              exact and_congr eq_comm (and_congr eq_comm eq_comm)
          | false =>
              rw [if_neg (by simp)]
              cases hprev : prevIdx entry idx with
              | none =>
                  refine iff_of_false (by simp) fun h => ?_
                  have hno : ∃ i, prevIdx entry idx = some i := by
                    rw [hvisit] at hfound
                    simp only [PrevPoint.found, Bool.and_eq_false_iff, Bool.not_eq_false'] at hfound
                    obtain ⟨hx, hy, hlayer⟩ := h
                    obtain (hX | hY) | hL := hfound
                    · exact hx.prev hentry hX
                    · exact hy.prev hentry hY
                    · exact hlayer.prev hentry hL
                  obtain ⟨i, hi⟩ := hno
                  cases hprev.symm.trans hi
              | some i =>
                  have hlt := hback.prevIdx_lt hentry hprev
                  dsimp only
                  rw [ih (by omega) hfound, hvisit, sought_step hentry hprev,
                    sought_step hentry hprev, sought_step hentry hprev]

/-- `getPrevPoint` finds an x, a y and a layer, each on its own. -/
theorem getPrevPoint_iff (hback : BackwardJunctions ops) {idx : Nat} {pnt : WirePoint} :
    getPrevPoint tech ops idx true = some pnt ↔
      Found xOf ops idx pnt.x ∧ Found yOf ops idx pnt.y ∧ Found (layerOf tech) ops idx pnt.layer :=
  prevPointLoop_iff hback (Nat.lt_succ_self idx) rfl

end OpenRoad.Db
