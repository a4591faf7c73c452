import OpenRoad.DbTableFreeList
import Mathlib.Data.Finset.Card
import Mathlib.Data.Finset.Range
import Mathlib.Order.Bounds.Basic

/-!
The invariant of `dbTable`. Every unused id is on the free list once, the counters agree with the
allocated ids, and `bottomIdx` and `topIdx` are their least and greatest. `create` and `destroy` are
each specified once, by what they do to the free list and to the set of allocated ids.
-/

namespace OpenRoad.Db
open LinkedList

namespace DbTable

/-- The ids in use. -/
def allocated (T : DbTable) : Finset Nat :=
  (Finset.range T.cap).filter fun id => (T.slot id).alloc = true

/-- The offsets in use on a page. -/
def pageAllocated (T : DbTable) (p : Nat) : Finset Nat :=
  (Finset.range T.pageSize).filter fun offset => ((T.pages p).objects offset).alloc = true

/-- `b` is the least member of `s`, or null if there is none. -/
def IsBottom (s : Finset Nat) (b : Nat) : Prop := (s = ∅ ∧ b = 0) ∨ IsLeast (s : Set Nat) b

/-- `t` is the greatest member of `s`, or null if there is none. -/
def IsTop (s : Finset Nat) (t : Nat) : Prop := (s = ∅ ∧ t = 0) ∨ IsGreatest (s : Set Nat) t

/-- The counters of the table and of its pages agree with the objects. -/
structure Counted (T : DbTable) : Prop where
  allocCnt : T.allocCnt = T.allocated.card
  alloccnt : ∀ p, p < T.pageCnt → (T.pages p).alloccnt = (T.pageAllocated p).card

/-- The invariant, with the free list it is about. -/
structure Inv (T : DbTable) (free : List Nat) : Prop extends T.Linked free, T.Counted where
  zero : (T.slot 0).alloc = false
  complete : ∀ id, id ≠ 0 → id < T.cap → (T.slot id).alloc = false → id ∈ free
  bottom : IsBottom T.allocated T.bottomIdx
  top : IsTop T.allocated T.topIdx

theorem mem_allocated {T : DbTable} {id : Nat} :
    id ∈ T.allocated ↔ id < T.cap ∧ (T.slot id).alloc = true := by
  simp [allocated]

theorem mem_pageAllocated {T : DbTable} (h : T.Sized) {p offset : Nat} (hp : p < T.pageCnt)
    (hoff : offset < T.pageSize) :
    offset ∈ T.pageAllocated p ↔ p * T.pageSize + offset ∈ T.allocated := by
  have hlt : p * T.pageSize + offset < T.cap := by
    have : (p + 1) * T.pageSize ≤ T.cap := Nat.mul_le_mul_right _ hp
    rw [Nat.succ_mul] at this
    omega
  simp [pageAllocated, mem_allocated, h.slot_addr p hoff, hoff, hlt]

theorem validId_iff {T : DbTable} {free : List Nat} (h : T.Inv free) {id : Nat} :
    T.validId id = true ↔ id ∈ T.allocated := by
  simp only [validId, decide_eq_true_eq, mem_allocated, h.sized.page_lt]
  constructor
  · rintro ⟨_, h1, h2⟩; exact ⟨h1, h2⟩
  · rintro ⟨h1, h2⟩
    refine ⟨?_, h1, h2⟩
    rintro rfl
    rw [h.zero] at h2
    exact Bool.false_ne_true h2

theorem Inv.ne_zero {T : DbTable} {free : List Nat} (h : T.Inv free) {id : Nat}
    (hid : id ∈ T.allocated) : id ≠ 0 := by
  rintro rfl
  have := (mem_allocated.mp hid).2
  rw [h.zero] at this
  exact Bool.false_ne_true this

theorem Inv.mem_free_iff {T : DbTable} {free : List Nat} (h : T.Inv free) {id : Nat} :
    id ∈ free ↔ (id ≠ 0 ∧ id < T.cap) ∧ id ∉ T.allocated := by
  rw [mem_allocated]
  constructor
  · intro hid
    have hu := h.unused id hid
    exact ⟨⟨h.chain.ne_zero id hid, h.lt_cap id hid⟩, fun ha => by simp [hu] at ha⟩
  · rintro ⟨⟨h0, hlt⟩, hna⟩
    refine h.complete id h0 hlt ?_
    cases hs : (T.slot id).alloc with
    | false => rfl
    | true => exact absurd ⟨hlt, hs⟩ hna

/-- Ids are ordered by page first. -/
theorem addr_lt {S p q r k : Nat} (hpq : p < q) (hr : r < S) : p * S + r < q * S + k := by
  have : (p + 1) * S ≤ q * S := Nat.mul_le_mul_right _ hpq
  rw [Nat.succ_mul] at this
  omega

/-- An allocated id, by page and offset. -/
theorem Sized.allocated_cases {T : DbTable} (h : T.Sized) {id : Nat} (hid : id ∈ T.allocated) :
    ∃ p offset, id = p * T.pageSize + offset ∧ p < T.pageCnt ∧ offset < T.pageSize ∧
      offset ∈ T.pageAllocated p := by
  have hlt := (mem_allocated.mp hid).1
  have hp : id / T.pageSize < T.pageCnt := by
    rw [← h.shift]; exact h.page_lt.mpr hlt
  have hoff := Nat.mod_lt id h.pageSize_pos
  have heq : id = id / T.pageSize * T.pageSize + id % T.pageSize := by
    rw [Nat.mul_comm]; exact (Nat.div_add_mod id _).symm
  exact ⟨id / T.pageSize, id % T.pageSize, heq, hp, hoff,
    (mem_pageAllocated h hp hoff).mpr (heq ▸ hid)⟩

/-! ### Searches -/

theorem scanUp_some {objects : Nat → DbSlot} {offset n r : Nat}
    (h : scanUp objects offset n = some r) :
    offset ≤ r ∧ r < offset + n ∧ (objects r).alloc = true ∧
      ∀ k, offset ≤ k → k < r → (objects k).alloc = false := by
  induction n generalizing offset with
  | zero => simp [scanUp] at h
  | succ n ih =>
      rw [scanUp] at h
      split_ifs at h with ha
      · obtain rfl : offset = r := by simpa using h
        exact ⟨le_rfl, by omega, ha, fun k h1 h2 => by omega⟩
      · obtain ⟨h1, h2, h3, h4⟩ := ih h
        refine ⟨by omega, by omega, h3, fun k hk1 hk2 => ?_⟩
        rcases Nat.eq_or_lt_of_le hk1 with rfl | hlt
        · simpa using ha
        · exact h4 k hlt hk2

theorem scanUp_none {objects : Nat → DbSlot} {offset n : Nat}
    (h : scanUp objects offset n = none) :
    ∀ k, offset ≤ k → k < offset + n → (objects k).alloc = false := by
  induction n generalizing offset with
  | zero => intro k h1 h2; omega
  | succ n ih =>
      rw [scanUp] at h
      split_ifs at h with ha
      intro k hk1 hk2
      rcases Nat.eq_or_lt_of_le hk1 with rfl | hlt
      · simpa using ha
      · exact ih h k hlt (by omega)

theorem scanDown_some {objects : Nat → DbSlot} {n r : Nat} (h : scanDown objects n = some r) :
    r < n ∧ (objects r).alloc = true ∧ ∀ k, r < k → k < n → (objects k).alloc = false := by
  induction n with
  | zero => simp [scanDown] at h
  | succ n ih =>
      rw [scanDown] at h
      split_ifs at h with ha
      · obtain rfl : n = r := by simpa using h
        exact ⟨by omega, ha, fun k h1 h2 => by omega⟩
      · obtain ⟨h1, h2, h3⟩ := ih h
        refine ⟨by omega, h2, fun k hk1 hk2 => ?_⟩
        rcases Nat.eq_or_lt_of_le (Nat.le_of_lt_succ hk2) with rfl | hlt
        · simpa using ha
        · exact h3 k hk1 hlt

theorem scanDown_none {objects : Nat → DbSlot} {n : Nat} (h : scanDown objects n = none) :
    ∀ k, k < n → (objects k).alloc = false := by
  induction n with
  | zero => intro k hk; omega
  | succ n ih =>
      rw [scanDown] at h
      split_ifs at h with ha
      intro k hk
      rcases Nat.eq_or_lt_of_le (Nat.le_of_lt_succ hk) with rfl | hlt
      · simpa using ha
      · exact ih h k hlt

theorem Counted.validPage_iff {T : DbTable} (h : T.Counted) {p : Nat} (hp : p < T.pageCnt) :
    (T.pages p).validPage = true ↔ (T.pageAllocated p).Nonempty := by
  rw [DbTablePage.validPage, h.alloccnt p hp, bne_iff_ne, ne_eq, Finset.card_eq_zero,
    Finset.nonempty_iff_ne_empty]

/-- A page without an allocated object holds no allocated id. -/
theorem Counted.not_validPage {T : DbTable} (h : T.Counted) {p offset : Nat} (hp : p < T.pageCnt)
    (hv : ¬ (T.pages p).validPage = true) : offset ∉ T.pageAllocated p := by
  intro hmem
  exact hv ((h.validPage_iff hp).mpr ⟨offset, hmem⟩)

theorem mem_pageAllocated_of_alloc {T : DbTable} {p offset : Nat} (hoff : offset < T.pageSize)
    (ha : ((T.pages p).objects offset).alloc = true) : offset ∈ T.pageAllocated p := by
  simp [pageAllocated, hoff, ha]

theorem alloc_of_mem_pageAllocated {T : DbTable} {p offset : Nat}
    (h : offset ∈ T.pageAllocated p) :
    offset < T.pageSize ∧ ((T.pages p).objects offset).alloc = true := by
  simpa [pageAllocated] using h

/-- The least allocated id from `lo` on. -/
def IsLeastFrom (T : DbTable) (lo b : Nat) : Prop :=
  IsLeast {id | id ∈ T.allocated ∧ lo ≤ id} b

/-- The greatest allocated id below `hi`. -/
def IsGreatestBelow (T : DbTable) (hi t : Nat) : Prop :=
  IsGreatest {id | id ∈ T.allocated ∧ id < hi} t

/-- The scan of one page from an offset finds the least allocated id from there on. -/
theorem scanUp_isLeast {T : DbTable} (h : T.Sized) {p offset r : Nat} (hp : p < T.pageCnt)
    (hoff : offset ≤ T.pageSize)
    (hscan : scanUp (T.pages p).objects offset (T.pageSize - offset) = some r) :
    T.IsLeastFrom (p * T.pageSize + offset) (p * T.pageSize + r) := by
  obtain ⟨h1, h2, h3, h4⟩ := scanUp_some hscan
  have hr : r < T.pageSize := by omega
  refine ⟨⟨(mem_pageAllocated h hp hr).mp (mem_pageAllocated_of_alloc hr h3), by omega⟩, ?_⟩
  rintro id ⟨hid, hlo⟩
  obtain ⟨q, k, rfl, hq, hk, hmem⟩ := h.allocated_cases hid
  rcases Nat.lt_trichotomy q p with hqp | rfl | hpq
  · have := addr_lt (k := offset) hqp hk
    omega
  · by_contra hlt
    have := h4 k (by omega) (by omega)
    rw [(alloc_of_mem_pageAllocated hmem).2] at this
    exact Bool.false_ne_true this.symm
  · exact (addr_lt hpq hr).le

/-- If it finds nothing, the search goes on at the next page. -/
theorem isLeastFrom_next_page {T : DbTable} (h : T.Sized) {p offset b : Nat}
    (hnone : ∀ k, offset ≤ k → k ∉ T.pageAllocated p)
    (hb : T.IsLeastFrom ((p + 1) * T.pageSize) b) :
    T.IsLeastFrom (p * T.pageSize + offset) b ∨ T.pageSize < offset := by
  by_cases hoff : T.pageSize < offset
  · exact Or.inr hoff
  refine Or.inl ⟨⟨hb.1.1, ?_⟩, ?_⟩
  · have := hb.1.2
    rw [Nat.succ_mul] at this
    omega
  · rintro id ⟨hid, hlo⟩
    refine hb.2 ⟨hid, ?_⟩
    obtain ⟨q, k, rfl, hq, hk, hmem⟩ := h.allocated_cases hid
    rcases Nat.lt_trichotomy q p with hqp | rfl | hpq
    · have := addr_lt (k := offset) hqp hk
      omega
    · exact absurd hmem (hnone k (by omega))
    · exact (Nat.mul_le_mul_right _ hpq).trans (Nat.le_add_right _ _)

/-- Where the next page with an allocated object is, the scan of it finds the least id. -/
theorem nextValidPage_isLeast {T : DbTable} (h : T.Sized) (hc : T.Counted) :
    ∀ (n pageId : Nat), pageId + n = T.pageCnt →
      (∃ id ∈ T.allocated, pageId * T.pageSize ≤ id) →
      ∃ q r, T.nextValidPage pageId n = some q ∧
        scanUp (T.pages q).objects 0 T.pageSize = some r ∧
        T.IsLeastFrom (pageId * T.pageSize) (q * T.pageSize + r) := by
  intro n
  induction n with
  | zero =>
      rintro pageId hcnt ⟨id, hid, hle⟩
      have := (mem_allocated.mp hid).1
      rw [cap, ← hcnt, Nat.add_zero] at this
      omega
  | succ n ih =>
      rintro pageId hcnt ⟨id, hid, hle⟩
      have hp : pageId < T.pageCnt := by omega
      rw [nextValidPage]
      by_cases hv : (T.pages pageId).validPage = true
      · rw [if_pos hv]
        obtain ⟨k, hk⟩ := (hc.validPage_iff hp).mp hv
        obtain ⟨hkS, hka⟩ := alloc_of_mem_pageAllocated hk
        cases hscan : scanUp (T.pages pageId).objects 0 T.pageSize with
        | none =>
            rw [scanUp_none hscan k (Nat.zero_le _) (by omega)] at hka
            exact absurd hka Bool.false_ne_true
        | some r => exact ⟨pageId, r, rfl, hscan, scanUp_isLeast h hp (Nat.zero_le _) hscan⟩
      · rw [if_neg hv]
        have hnone : ∀ k, 0 ≤ k → k ∉ T.pageAllocated pageId := fun k _ => hc.not_validPage hp hv
        have hid' : (pageId + 1) * T.pageSize ≤ id := by
          obtain ⟨q, k, rfl, hq, hk, hmem⟩ := h.allocated_cases hid
          rcases Nat.lt_trichotomy q pageId with hqp | rfl | hpq
          · have := addr_lt (k := 0) hqp hk
            omega
          · exact absurd hmem (hnone k (Nat.zero_le _))
          · exact (Nat.mul_le_mul_right _ hpq).trans (Nat.le_add_right _ _)
        obtain ⟨q, r, hq, hscan, hleast⟩ := ih (pageId + 1) (by omega) ⟨id, hid, hid'⟩
        exact ⟨q, r, hq, hscan, (isLeastFrom_next_page h hnone hleast).resolve_right (by omega)⟩

/-- Every allocated id lies above the destroyed least one: the search for the next finds it. -/
theorem findBottom_spec {T : DbTable} (h : T.Sized) (hc : T.Counted) (hcap : T.bottomIdx < T.cap)
    (hgt : ∀ id ∈ T.allocated, T.bottomIdx < id) :
    ∃ b, T.findBottom = some { T with bottomIdx := b } ∧ IsBottom T.allocated b := by
  by_cases hcnt : T.allocCnt = 0
  · refine ⟨0, by rw [findBottom, if_pos hcnt], Or.inl ⟨?_, rfl⟩⟩
    rwa [hc.allocCnt, Finset.card_eq_zero] at hcnt
  have hpos := h.pageSize_pos
  have hne : T.allocated.Nonempty := by
    rw [← Finset.card_pos, ← hc.allocCnt]; omega
  set p := T.bottomIdx / T.pageSize with hp
  set o := T.bottomIdx % T.pageSize with ho
  have hbot : T.bottomIdx = p * T.pageSize + o := by
    rw [Nat.mul_comm]; exact (Nat.div_add_mod _ _).symm
  have hpage : p < T.pageCnt := by
    rw [hp, ← h.shift]; exact h.page_lt.mpr hcap
  have hoS : o < T.pageSize := Nat.mod_lt _ hpos
  -- a least id from the destroyed one on is the least of all
  have hleast : ∀ {lo b}, lo ≤ T.bottomIdx + 1 → T.IsLeastFrom lo b → IsBottom T.allocated b := by
    intro lo b hlo hb
    refine Or.inr ⟨hb.1.1, fun id hid => hb.2 ⟨hid, ?_⟩⟩
    have := hgt id hid
    omega
  rw [findBottom, if_neg hcnt]
  simp only [h.shift, h.and_mask, h.addr, ← hp, ← ho]
  by_cases hv : (T.pages p).validPage = true
  · rw [if_pos hv]
    obtain ⟨k, hk⟩ := (hc.validPage_iff hpage).mp hv
    obtain ⟨hkS, hka⟩ := alloc_of_mem_pageAllocated hk
    have hko : o + 1 ≤ k := by
      have := hgt _ ((mem_pageAllocated h hpage hkS).mp hk)
      omega
    cases hscan : scanUp (T.pages p).objects (o + 1) (T.pageSize - (o + 1)) with
    | none =>
        rw [scanUp_none hscan k hko (by omega)] at hka
        exact absurd hka Bool.false_ne_true
    | some r =>
        exact ⟨p * T.pageSize + r, rfl,
          hleast (by omega) (scanUp_isLeast h hpage (by omega) hscan)⟩
  · rw [if_neg hv]
    have hpages : ∀ id ∈ T.allocated, (p + 1) * T.pageSize ≤ id := by
      intro id hid
      have hlt := hgt id hid
      obtain ⟨q, k, rfl, hq, hk, hmem⟩ := h.allocated_cases hid
      rcases Nat.lt_trichotomy q p with hqp | rfl | hpq
      · have := addr_lt (k := o) hqp hk
        omega
      · exact absurd hmem (hc.not_validPage hpage hv)
      · exact (Nat.mul_le_mul_right _ hpq).trans (Nat.le_add_right _ _)
    obtain ⟨id, hid⟩ := hne
    obtain ⟨q, r, hq, hscan, hb⟩ := nextValidPage_isLeast h hc (T.pageCnt - (p + 1)) (p + 1)
      (by omega) ⟨id, hid, hpages id hid⟩
    refine ⟨q * T.pageSize + r, by simp [hq, hscan], Or.inr ⟨hb.1.1, fun id hid => ?_⟩⟩
    exact hb.2 ⟨hid, hpages id hid⟩

/-- The downward scan of one page finds the greatest allocated id below an offset. -/
theorem scanDown_isGreatest {T : DbTable} (h : T.Sized) {p hi r : Nat} (hp : p < T.pageCnt)
    (hhi : hi ≤ T.pageSize) (hscan : scanDown (T.pages p).objects hi = some r) :
    T.IsGreatestBelow (p * T.pageSize + hi) (p * T.pageSize + r) := by
  obtain ⟨h1, h2, h3⟩ := scanDown_some hscan
  have hr : r < T.pageSize := by omega
  refine ⟨⟨(mem_pageAllocated h hp hr).mp (mem_pageAllocated_of_alloc hr h2), by omega⟩, ?_⟩
  rintro id ⟨hid, hlt⟩
  obtain ⟨q, k, rfl, hq, hk, hmem⟩ := h.allocated_cases hid
  rcases Nat.lt_trichotomy q p with hqp | rfl | hpq
  · exact (addr_lt hqp hk).le
  · by_contra hlt'
    have := h3 k (by omega) (by omega)
    rw [(alloc_of_mem_pageAllocated hmem).2] at this
    exact Bool.false_ne_true this.symm
  · rcases Nat.lt_or_ge hi T.pageSize with hlt' | hge
    · have := addr_lt (k := k) hpq hlt'
      omega
    · have : (p + 1) * T.pageSize ≤ q * T.pageSize := Nat.mul_le_mul_right _ hpq
      rw [Nat.succ_mul] at this
      omega

theorem prevValidPage_isGreatest {T : DbTable} (h : T.Sized) (hc : T.Counted) :
    ∀ n, n ≤ T.pageCnt → (∃ id ∈ T.allocated, id < n * T.pageSize) →
      ∃ q r, T.prevValidPage n = some q ∧ scanDown (T.pages q).objects T.pageSize = some r ∧
        T.IsGreatestBelow (n * T.pageSize) (q * T.pageSize + r) := by
  intro n
  induction n with
  | zero =>
      rintro _ ⟨id, _, hlt⟩
      omega
  | succ n ih =>
      rintro hn ⟨id, hid, hlt⟩
      have hp : n < T.pageCnt := by omega
      have hsucc : (n + 1) * T.pageSize = n * T.pageSize + T.pageSize := Nat.succ_mul _ _
      rw [prevValidPage]
      by_cases hv : (T.pages n).validPage = true
      · rw [if_pos hv]
        obtain ⟨k, hk⟩ := (hc.validPage_iff hp).mp hv
        obtain ⟨hkS, hka⟩ := alloc_of_mem_pageAllocated hk
        cases hscan : scanDown (T.pages n).objects T.pageSize with
        | none =>
            rw [scanDown_none hscan k hkS] at hka
            exact absurd hka Bool.false_ne_true
        | some r =>
            exact ⟨n, r, rfl, hscan, hsucc ▸ scanDown_isGreatest h hp le_rfl hscan⟩
      · rw [if_neg hv]
        have hbelow : ∀ a ∈ T.allocated, a < (n + 1) * T.pageSize → a < n * T.pageSize := by
          intro a ha hlt'
          obtain ⟨q, k, rfl, hq, hk, hmem⟩ := h.allocated_cases ha
          rcases Nat.lt_trichotomy q n with hqn | rfl | hnq
          · have := addr_lt (k := 0) hqn hk
            omega
          · exact absurd hmem (hc.not_validPage hp hv)
          · have : (n + 1) * T.pageSize ≤ q * T.pageSize := Nat.mul_le_mul_right _ hnq
            omega
        obtain ⟨q, r, hq, hscan, hg⟩ := ih (by omega) ⟨id, hid, hbelow id hid hlt⟩
        refine ⟨q, r, hq, hscan, ⟨hg.1.1, ?_⟩, ?_⟩
        · have := hg.1.2
          omega
        · rintro a ⟨ha, hlt'⟩
          exact hg.2 ⟨ha, hbelow a ha hlt'⟩

/-- Every allocated id lies below the destroyed greatest one: the search for the next finds it. -/
theorem findTop_spec {T : DbTable} (h : T.Sized) (hc : T.Counted) (hcap : T.topIdx < T.cap)
    (hlt : ∀ id ∈ T.allocated, id < T.topIdx) :
    ∃ t, T.findTop = some { T with topIdx := t } ∧ IsTop T.allocated t := by
  by_cases hcnt : T.allocCnt = 0
  · refine ⟨0, by rw [findTop, if_pos hcnt], Or.inl ⟨?_, rfl⟩⟩
    rwa [hc.allocCnt, Finset.card_eq_zero] at hcnt
  have hne : T.allocated.Nonempty := by
    rw [← Finset.card_pos, ← hc.allocCnt]; omega
  set p := T.topIdx / T.pageSize with hp
  set o := T.topIdx % T.pageSize with ho
  have htop : T.topIdx = p * T.pageSize + o := by
    rw [Nat.mul_comm]; exact (Nat.div_add_mod _ _).symm
  have hpage : p < T.pageCnt := by
    rw [hp, ← h.shift]; exact h.page_lt.mpr hcap
  have hoS : o < T.pageSize := Nat.mod_lt _ h.pageSize_pos
  rw [findTop, if_neg hcnt]
  simp only [h.shift, h.and_mask, h.addr, ← hp, ← ho]
  by_cases hv : (T.pages p).validPage = true
  · rw [if_pos hv]
    obtain ⟨k, hk⟩ := (hc.validPage_iff hpage).mp hv
    obtain ⟨hkS, hka⟩ := alloc_of_mem_pageAllocated hk
    have hko : k < o := by
      have := hlt _ ((mem_pageAllocated h hpage hkS).mp hk)
      omega
    cases hscan : scanDown (T.pages p).objects o with
    | none =>
        rw [scanDown_none hscan k hko] at hka
        exact absurd hka Bool.false_ne_true
    | some r =>
        have hg := scanDown_isGreatest h hpage hoS.le hscan
        exact ⟨p * T.pageSize + r, rfl, Or.inr ⟨hg.1.1, fun id hid =>
          hg.2 ⟨hid, htop ▸ hlt id hid⟩⟩⟩
  · rw [if_neg hv]
    have hpages : ∀ id ∈ T.allocated, id < p * T.pageSize := by
      intro id hid
      have hlt' := hlt id hid
      obtain ⟨q, k, rfl, hq, hk, hmem⟩ := h.allocated_cases hid
      rcases Nat.lt_trichotomy q p with hqp | rfl | hpq
      · have := addr_lt (k := 0) hqp hk
        omega
      · exact absurd hmem (hc.not_validPage hpage hv)
      · have := addr_lt (k := k) hpq hoS
        omega
    obtain ⟨id, hid⟩ := hne
    obtain ⟨q, r, hq, hscan, hg⟩ := prevValidPage_isGreatest h hc p hpage.le
      ⟨id, hid, hpages id hid⟩
    exact ⟨q * T.pageSize + r, by simp [hq, hscan], Or.inr ⟨hg.1.1, fun id hid =>
      hg.2 ⟨hid, hpages id hid⟩⟩⟩

/-! ### One object more or less -/

theorem Sized.mem_pageAllocated_iff {T : DbTable} (h : T.Sized) {p offset : Nat} :
    offset ∈ T.pageAllocated p ↔
      offset < T.pageSize ∧ (T.slot (p * T.pageSize + offset)).alloc = true := by
  constructor
  · intro hmem
    obtain ⟨h1, h2⟩ := alloc_of_mem_pageAllocated hmem
    exact ⟨h1, by rw [h.slot_addr p h1]; exact h2⟩
  · rintro ⟨h1, h2⟩
    rw [h.slot_addr p h1] at h2
    exact mem_pageAllocated_of_alloc h1 h2

/-- The two tables have the same pages and differ in whether `id` is in use. -/
structure Toggles (T T' : DbTable) (id : Nat) (b : Bool) : Prop where
  pageMask : T'.pageMask = T.pageMask
  pageShift : T'.pageShift = T.pageShift
  pageCnt : T'.pageCnt = T.pageCnt
  alloc : ∀ a, (T'.slot a).alloc = if a = id then b else (T.slot a).alloc

theorem Toggles.pageSize {T T' : DbTable} {id : Nat} {b : Bool} (ht : Toggles T T' id b) :
    T'.pageSize = T.pageSize := by
  rw [DbTable.pageSize, ht.pageMask, DbTable.pageSize]

theorem Toggles.cap {T T' : DbTable} {id : Nat} {b : Bool} (ht : Toggles T T' id b) :
    T'.cap = T.cap := by
  rw [DbTable.cap, ht.pageCnt, ht.pageSize, DbTable.cap]

theorem Toggles.sized {T T' : DbTable} {id : Nat} {b : Bool} (ht : Toggles T T' id b)
    (h : T.Sized) : T'.Sized := by
  rw [Sized, ht.pageMask, ht.pageShift]
  exact h

theorem Toggles.allocated_true {T T' : DbTable} {id : Nat} (ht : Toggles T T' id true)
    (hid : id < T.cap) : T'.allocated = insert id T.allocated := by
  ext a
  rw [Finset.mem_insert, mem_allocated, mem_allocated, ht.cap, ht.alloc]
  by_cases ha : a = id
  · subst ha; simp [hid]
  · simp [ha]

theorem Toggles.allocated_false {T T' : DbTable} {id : Nat} (ht : Toggles T T' id false) :
    T'.allocated = T.allocated.erase id := by
  ext a
  rw [Finset.mem_erase, mem_allocated, mem_allocated, ht.cap, ht.alloc]
  by_cases ha : a = id
  · subst ha; simp
  · simp [ha]

/-- The address of a slot is the id exactly for its page and offset. -/
theorem addr_eq_iff {S id p offset : Nat} (hoff : offset < S) :
    p * S + offset = id ↔ p = id / S ∧ offset = id % S := by
  constructor
  · rintro rfl
    rw [Nat.mul_comm, Nat.mul_add_div (by omega), Nat.div_eq_of_lt hoff, Nat.mul_add_mod,
      Nat.mod_eq_of_lt hoff]
    exact ⟨rfl, rfl⟩
  · rintro ⟨rfl, rfl⟩
    rw [Nat.mul_comm]
    exact Nat.div_add_mod _ _

theorem Toggles.pageAllocated_ne {T T' : DbTable} {id : Nat} {b : Bool} (ht : Toggles T T' id b)
    (h : T.Sized) {p : Nat} (hp : p ≠ id / T.pageSize) : T'.pageAllocated p = T.pageAllocated p := by
  ext offset
  rw [(ht.sized h).mem_pageAllocated_iff, h.mem_pageAllocated_iff, ht.pageSize, ht.alloc]
  refine and_congr_right fun hoff => ?_
  rw [if_neg]
  exact fun heq => hp ((addr_eq_iff hoff).mp heq).1

theorem Toggles.pageAllocated_true {T T' : DbTable} {id : Nat} (ht : Toggles T T' id true)
    (h : T.Sized) : T'.pageAllocated (id / T.pageSize) =
      insert (id % T.pageSize) (T.pageAllocated (id / T.pageSize)) := by
  ext offset
  rw [Finset.mem_insert, (ht.sized h).mem_pageAllocated_iff, h.mem_pageAllocated_iff, ht.pageSize,
    ht.alloc]
  have hmod := Nat.mod_lt id h.pageSize_pos
  by_cases hoff : offset < T.pageSize
  · by_cases heq : offset = id % T.pageSize
    · rw [if_pos ((addr_eq_iff hoff).mpr ⟨rfl, heq⟩)]
      simp [heq, hmod]
    · rw [if_neg fun hid => heq ((addr_eq_iff hoff).mp hid).2]
      simp [heq, hoff]
  · have : offset ≠ id % T.pageSize := by omega
    simp [hoff, this]

theorem Toggles.pageAllocated_false {T T' : DbTable} {id : Nat} (ht : Toggles T T' id false)
    (h : T.Sized) : T'.pageAllocated (id / T.pageSize) =
      (T.pageAllocated (id / T.pageSize)).erase (id % T.pageSize) := by
  ext offset
  rw [Finset.mem_erase, (ht.sized h).mem_pageAllocated_iff, h.mem_pageAllocated_iff, ht.pageSize,
    ht.alloc]
  by_cases hoff : offset < T.pageSize
  · by_cases heq : offset = id % T.pageSize
    · rw [if_pos ((addr_eq_iff hoff).mpr ⟨rfl, heq⟩)]
      simp [heq]
    · rw [if_neg fun hid => heq ((addr_eq_iff hoff).mp hid).2]
      simp [heq, hoff]
  · simp [hoff]

/-- The counters stay right when one object more is counted in the table and in its page. -/
theorem Toggles.counted_true {T T' : DbTable} {id : Nat} (ht : Toggles T T' id true) (h : T.Sized)
    (hc : T.Counted) (hid : id < T.cap) (hnew : id ∉ T.allocated)
    (hcnt : T'.allocCnt = T.allocCnt + 1)
    (hpages : ∀ p, (T'.pages p).alloccnt =
      if p = id / T.pageSize then (T.pages p).alloccnt + 1 else (T.pages p).alloccnt) :
    T'.Counted := by
  constructor
  · rw [hcnt, hc.allocCnt, ht.allocated_true hid, Finset.card_insert_of_notMem hnew]
  · intro p hp
    rw [ht.pageCnt] at hp
    rw [hpages]
    split_ifs with hpid
    · subst hpid
      rw [ht.pageAllocated_true h, hc.alloccnt _ hp, Finset.card_insert_of_notMem]
      intro hmem
      refine hnew (mem_allocated.mpr ⟨hid, ?_⟩)
      have := (h.mem_pageAllocated_iff.mp hmem).2
      rwa [(addr_eq_iff (Nat.mod_lt _ h.pageSize_pos)).mpr ⟨rfl, rfl⟩] at this
    · rw [ht.pageAllocated_ne h hpid, hc.alloccnt _ hp]

theorem Toggles.counted_false {T T' : DbTable} {id : Nat} (ht : Toggles T T' id false)
    (h : T.Sized) (hc : T.Counted) (hid : id ∈ T.allocated) (hcnt : T'.allocCnt = T.allocCnt - 1)
    (hpages : ∀ p, (T'.pages p).alloccnt =
      if p = id / T.pageSize then (T.pages p).alloccnt - 1 else (T.pages p).alloccnt) :
    T'.Counted := by
  constructor
  · rw [hcnt, hc.allocCnt, ht.allocated_false, Finset.card_erase_of_mem hid]
  · intro p hp
    rw [ht.pageCnt] at hp
    rw [hpages]
    split_ifs with hpid
    · subst hpid
      rw [ht.pageAllocated_false h, hc.alloccnt _ hp, Finset.card_erase_of_mem]
      have hmod := Nat.mod_lt id h.pageSize_pos
      rw [h.mem_pageAllocated_iff, (addr_eq_iff hmod).mpr ⟨rfl, rfl⟩]
      exact ⟨hmod, (mem_allocated.mp hid).2⟩
    · rw [ht.pageAllocated_ne h hpid, hc.alloccnt _ hp]

theorem isBottom_insert {s : Finset Nat} {b id : Nat} (hb : IsBottom s b) (hid : id ≠ 0)
    (hs : ∀ a ∈ s, a ≠ 0) :
    IsBottom (insert id s) (if b = 0 ∨ id < b then id else b) := by
  rcases hb with ⟨rfl, rfl⟩ | hb
  · rw [if_pos (Or.inl rfl)]
    exact Or.inr ⟨by simp, by simp⟩
  · have hb0 : b ≠ 0 := hs b hb.1
    refine Or.inr ?_
    split_ifs with hlt
    · have hlt : id < b := hlt.resolve_left hb0
      refine ⟨by simp, fun a ha => ?_⟩
      rcases Finset.mem_insert.mp ha with rfl | ha
      · exact le_rfl
      · exact hlt.le.trans (hb.2 ha)
    · refine ⟨Finset.mem_insert_of_mem hb.1, fun a ha => ?_⟩
      rcases Finset.mem_insert.mp ha with rfl | ha
      · exact Nat.le_of_not_lt fun h => hlt (Or.inr h)
      · exact hb.2 ha

theorem isTop_insert {s : Finset Nat} {t id : Nat} (ht : IsTop s t) :
    IsTop (insert id s) (if id > t then id else t) := by
  rcases ht with ⟨rfl, rfl⟩ | ht
  · refine Or.inr ⟨?_, ?_⟩
    · split_ifs with h
      · simp
      · simp [Nat.eq_zero_of_not_pos h]
    · intro a ha
      obtain rfl : a = id := by simpa using ha
      split_ifs with h
      · exact le_rfl
      · exact Nat.le_of_not_lt h
  · refine Or.inr ?_
    split_ifs with h
    · refine ⟨by simp, fun a ha => ?_⟩
      rcases Finset.mem_insert.mp ha with rfl | ha
      · exact le_rfl
      · exact (ht.2 ha).trans (Nat.le_of_lt h)
    · refine ⟨Finset.mem_insert_of_mem ht.1, fun a ha => ?_⟩
      rcases Finset.mem_insert.mp ha with rfl | ha
      · exact Nat.le_of_not_lt h
      · exact ht.2 ha

theorem isBottom_erase {s : Finset Nat} {b id : Nat} (hb : IsBottom s b) (hne : id ≠ b) :
    IsBottom (s.erase id) b := by
  rcases hb with ⟨rfl, rfl⟩ | hb
  · exact Or.inl ⟨rfl, rfl⟩
  · exact Or.inr ⟨Finset.mem_erase.mpr ⟨hne.symm, hb.1⟩, fun a ha => hb.2 (Finset.mem_of_mem_erase ha)⟩

theorem isTop_erase {s : Finset Nat} {t id : Nat} (ht : IsTop s t) (hne : id ≠ t) :
    IsTop (s.erase id) t := by
  rcases ht with ⟨rfl, rfl⟩ | ht
  · exact Or.inl ⟨rfl, rfl⟩
  · exact Or.inr ⟨Finset.mem_erase.mpr ⟨hne.symm, ht.1⟩, fun a ha => ht.2 (Finset.mem_of_mem_erase ha)⟩

end DbTable

end OpenRoad.Db
