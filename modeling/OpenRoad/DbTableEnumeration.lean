import OpenRoad.DbTableSpec

/-!
The ids of `dbTable` after any sequence of `create` and `destroy`: what is allocated, what is on the
free list, the counters, and the enumeration by `begin` and `next`.
-/

namespace OpenRoad.Db
open LinkedList

namespace DbTable

/-- `b` is the least allocated id from `lo` on, or null if there is none. -/
def IsNext (T : DbTable) (lo b : Nat) : Prop :=
  (b = 0 ∧ ∀ id ∈ T.allocated, id < lo) ∨ T.IsLeastFrom lo b

/-- An iteration from an id passes through the ids of the list and ends at null. -/
inductive Visits (T : DbTable) : Nat → List Nat → Prop
  | done : Visits T 0 []
  | next (id : Nat) (ids : List Nat) : id ≠ 0 → Visits T (T.nextId id) ids → Visits T id (id :: ids)

/-- A page that holds nothing from `offset` on leaves the search to the next page. -/
theorem isNext_next_page {T : DbTable} (h : T.Sized) {p offset b : Nat}
    (hoff : offset ≤ T.pageSize) (hnone : ∀ k, offset ≤ k → k ∉ T.pageAllocated p)
    (hb : T.IsNext ((p + 1) * T.pageSize) b) : T.IsNext (p * T.pageSize + offset) b := by
  rcases hb with ⟨rfl, hlt⟩ | hb
  · refine Or.inl ⟨rfl, fun id hid => ?_⟩
    have hid' := hlt id hid
    obtain ⟨q, k, rfl, hq, hk, hmem⟩ := h.allocated_cases hid
    rcases Nat.lt_trichotomy q p with hqp | rfl | hpq
    · exact addr_lt hqp hk
    · by_contra hle
      exact hnone k (by omega) hmem
    · have := Nat.mul_le_mul_right T.pageSize (Nat.succ_le_of_lt hpq)
      rw [Nat.succ_eq_add_one] at this
      omega
  · exact Or.inr ((isLeastFrom_next_page h hnone hb).resolve_right (by omega))

theorem not_mem_of_scanUp_none {T : DbTable} {p offset : Nat}
    (hscan : scanUp (T.pages p).objects offset (T.pageSize - offset) = none) :
    ∀ k, offset ≤ k → k ∉ T.pageAllocated p := by
  intro k hk hmem
  obtain ⟨hkS, hka⟩ := alloc_of_mem_pageAllocated hmem
  rw [scanUp_none hscan k hk (by omega)] at hka
  exact Bool.false_ne_true hka

theorem nextOnPages_isNext {T : DbTable} (h : T.Sized) (hc : T.Counted) (n pageId : Nat)
    (hcnt : pageId + n = T.pageCnt) : T.IsNext (pageId * T.pageSize) (T.nextOnPages pageId n) := by
  induction n generalizing pageId with
  | zero =>
      refine Or.inl ⟨rfl, fun id hid => ?_⟩
      rw [Nat.add_zero] at hcnt
      rw [hcnt]
      exact (mem_allocated.mp hid).1
  | succ n ih =>
      have hp : pageId < T.pageCnt := by omega
      have hrest := ih (pageId + 1) (by omega)
      have hskip : (∀ k, 0 ≤ k → k ∉ T.pageAllocated pageId) →
          T.IsNext (pageId * T.pageSize) (T.nextOnPages (pageId + 1) n) :=
        fun hnone => isNext_next_page h (Nat.zero_le _) hnone hrest
      rw [nextOnPages]
      by_cases hv : (T.pages pageId).validPage = true
      · rw [if_pos hv]
        cases hscan : scanUp (T.pages pageId).objects 0 T.pageSize with
        | none => exact hskip (not_mem_of_scanUp_none hscan)
        | some r =>
            rw [h.addr]
            exact Or.inr (scanUp_isLeast h hp (Nat.zero_le _) hscan)
      · rw [if_neg hv]
        exact hskip fun k _ => hc.not_validPage hp hv

/-- `next` moves on to the least allocated id above. -/
theorem nextId_isNext {T : DbTable} {free : List Nat} (hi : T.Inv free) (id : Nat) :
    T.IsNext (id + 1) (T.nextId id) := by
  have h := hi.sized
  by_cases htop : id + 1 > T.topIdx
  · rw [nextId, if_pos htop]
    refine Or.inl ⟨rfl, fun a ha => ?_⟩
    rcases hi.top with ⟨hempty, -⟩ | hgreatest
    · rw [hempty] at ha
      exact absurd ha (Finset.notMem_empty a)
    · exact lt_of_le_of_lt (hgreatest.2 ha) htop
  · have hcap : id + 1 < T.cap := by
      rcases hi.top with ⟨-, h0⟩ | hgreatest
      · omega
      · have := (mem_allocated.mp hgreatest.1).1
        omega
    rw [nextId, if_neg htop]
    simp only [h.shift, h.and_mask, h.addr]
    set p := (id + 1) / T.pageSize with hp
    set o := (id + 1) % T.pageSize with ho
    have hpage : p < T.pageCnt := by
      rw [hp, ← h.shift]
      exact h.page_lt.mpr hcap
    have hoff : o < T.pageSize := Nat.mod_lt _ h.pageSize_pos
    have hid : id + 1 = p * T.pageSize + o := by
      rw [Nat.mul_comm]
      exact (Nat.div_add_mod _ _).symm
    rw [hid]
    cases hscan : scanUp (T.pages p).objects o (T.pageSize - o) with
    | none =>
        exact isNext_next_page h hoff.le (not_mem_of_scanUp_none hscan)
          (nextOnPages_isNext h hi.toCounted _ _ (by omega))
    | some r => exact Or.inr (scanUp_isLeast h hpage hoff.le hscan)

theorem beginId_isNext {T : DbTable} {free : List Nat} (hi : T.Inv free) :
    T.IsNext 0 T.beginId := by
  rcases hi.bottom with ⟨hempty, h0⟩ | hleast
  · refine Or.inl ⟨h0, fun id hid => ?_⟩
    rw [hempty] at hid
    exact absurd hid (Finset.notMem_empty id)
  · exact Or.inr ⟨⟨hleast.1, Nat.zero_le _⟩, fun a ha => hleast.2 ha.1⟩

/-- From the least allocated id above a bound, the iteration passes through all ids above it. -/
theorem visits_of_isNext {T : DbTable} {free : List Nat} (hi : T.Inv free) (n lo b : Nat)
    (hn : T.cap ≤ lo + n) (hb : T.IsNext lo b) :
    ∃ ids, T.Visits b ids ∧ ids.Pairwise (· < ·) ∧ ∀ id, id ∈ ids ↔ id ∈ T.allocated ∧ lo ≤ id := by
  induction n generalizing lo b with
  | zero =>
      rcases hb with ⟨rfl, hlt⟩ | hb
      · refine ⟨[], .done, List.Pairwise.nil, fun id => ?_⟩
        have := hlt id
        simp only [List.not_mem_nil, false_iff]
        intro h
        have := hlt id h.1
        omega
      · have := (mem_allocated.mp hb.1.1).1
        have := hb.1.2
        omega
  | succ n ih =>
      rcases hb with ⟨rfl, hlt⟩ | hb
      · refine ⟨[], .done, List.Pairwise.nil, fun id => ?_⟩
        simp only [List.not_mem_nil, false_iff]
        intro h
        have := hlt id h.1
        omega
      · have hlo := hb.1.2
        obtain ⟨ids, hvisits, hsorted, hmem⟩ :=
          ih (b + 1) (T.nextId b) (by omega) (nextId_isNext hi b)
        refine ⟨b :: ids, .next b ids (hi.ne_zero hb.1.1) hvisits,
          List.pairwise_cons.mpr ⟨fun a ha => ((hmem a).mp ha).2, hsorted⟩, fun id => ?_⟩
        rw [List.mem_cons, hmem]
        constructor
        · rintro (rfl | ⟨h1, h2⟩)
          · exact hb.1
          · exact ⟨h1, by omega⟩
        · rintro ⟨h1, h2⟩
          rcases Nat.eq_or_lt_of_le (hb.2 ⟨h1, h2⟩) with heq | hlt
          · exact Or.inl heq.symm
          · exact Or.inr ⟨h1, hlt⟩

/-- What holds of the ids of a table: the free list, read along its links, and the allocated ids
divide the ids of the pages among them; the counters and bounds agree with the allocated ids; and the
iteration from `begin` lists them in increasing order and ends. -/
structure IdsOk (T : DbTable) : Prop where
  partition : ∃ free,
    Chain (fun id => (T.slot id).next) (fun id => (T.slot id).prev) 0 T.freeList free ∧
    free.Nodup ∧ (∀ id ∈ free, id ∉ T.allocated) ∧
    ∀ id, (1 ≤ id ∧ id ≤ T.pageCnt * T.pageSize - 1) ↔ (id ∈ T.allocated ∨ id ∈ free)
  size : T.size = T.allocated.card
  alloccnt : ∀ p, p < T.pageCnt → (T.pages p).alloccnt = (T.pageAllocated p).card
  bottom : IsBottom T.allocated T.bottomIdx
  top : IsTop T.allocated T.topIdx
  enumeration : ∃ ids, T.Visits T.beginId ids ∧ ids.Pairwise (· < ·) ∧
    ∀ id, id ∈ ids ↔ id ∈ T.allocated

theorem Inv.partition {T : DbTable} {free : List Nat} (hi : T.Inv free) (id : Nat) :
    (1 ≤ id ∧ id ≤ T.pageCnt * T.pageSize - 1) ↔ (id ∈ T.allocated ∨ id ∈ free) := by
  have hrange : (1 ≤ id ∧ id ≤ T.pageCnt * T.pageSize - 1) ↔ (id ≠ 0 ∧ id < T.cap) := by
    rw [cap]
    omega
  rw [hrange, hi.mem_free_iff]
  constructor
  · intro h
    by_cases hid : id ∈ T.allocated
    · exact Or.inl hid
    · exact Or.inr ⟨h, hid⟩
  · rintro (hid | ⟨h, -⟩)
    · exact ⟨hi.ne_zero hid, (mem_allocated.mp hid).1⟩
    · exact h

theorem Inv.idsOk {T : DbTable} {free : List Nat} (hi : T.Inv free) : T.IdsOk where
  partition := ⟨free, hi.chain, hi.nodup, fun id hid => (hi.mem_free_iff.mp hid).2, hi.partition⟩
  size := hi.allocCnt
  alloccnt := hi.alloccnt
  bottom := hi.bottom
  top := hi.top
  enumeration := by
    obtain ⟨ids, hvisits, hsorted, hmem⟩ :=
      visits_of_isNext hi T.cap 0 T.beginId (by omega) (beginId_isNext hi)
    exact ⟨ids, hvisits, hsorted, fun id => by simp [hmem]⟩

/-- The ids are in order after any sequence of `create` and `destroy`. -/
theorem idsOk_of_run (pageShift : Nat) (ops : List TableOp) (T : DbTable)
    (hrun : Run.run step (init pageShift) ops = some T) : T.IdsOk := by
  obtain ⟨free, hi⟩ := ok_of_run hrun
  exact hi.idsOk

/-- With two slots a page the second `create` needs a second page. -/
theorem idsOk_two_pages : ∃ T, Run.run step (init 1) [.create, .create, .destroy 2] = some T ∧
    T.IdsOk := by
  cases hrun : Run.run step (init 1) [.create, .create, .destroy 2] with
  | none => exact absurd hrun (by decide)
  | some T => exact ⟨T, rfl, idsOk_of_run 1 _ T hrun⟩

end DbTable

end OpenRoad.Db
