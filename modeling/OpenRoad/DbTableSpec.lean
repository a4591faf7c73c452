import OpenRoad.DbTableInvariant
import OpenRoad.Run

/-!
`create` and `destroy` keep the invariant of `dbTable`. `create` hands out the first id of the free
list, or the first id of a new page when the list is empty; `destroy` puts the id back in front.
-/

namespace OpenRoad.Db
open LinkedList

namespace DbTable

/-- The free list `create` takes its id from. -/
def refill (T : DbTable) (free : List Nat) : List Nat := if free = [] then T.newIds else free

/-- `T'` is `T` with its free list refilled: the same objects, perhaps one page more. Counters are
compared with `T`'s own, before the new object is counted. -/
structure Refilled (T T' : DbTable) : Prop where
  pageShift : T'.pageShift = T.pageShift
  pageMask : T'.pageMask = T.pageMask
  allocCnt : T'.allocCnt = T.allocCnt + 1
  topIdx : T'.topIdx = T.topIdx
  bottomIdx : T'.bottomIdx = T.bottomIdx
  allocated : T'.allocated = T.allocated
  counted : ({ T' with allocCnt := T.allocCnt } : DbTable).Counted
  zero : (T'.slot 0).alloc = false

theorem SameObjects.allocated {T T' : DbTable} (h : SameObjects T T') :
    T'.allocated = T.allocated := by
  ext id
  rw [mem_allocated, mem_allocated, h.cap, h.alloc]

theorem SameObjects.sized {T T' : DbTable} (h : SameObjects T T') (hs : T.Sized) : T'.Sized := by
  rw [Sized, h.pageMask, h.pageShift]
  exact hs

theorem SameObjects.counted {T T' : DbTable} (h : SameObjects T T') (hs : T.Sized)
    (hc : T.Counted) : T'.Counted := by
  constructor
  · rw [h.allocCnt, h.allocated, hc.allocCnt]
  · intro p hp
    rw [h.pageCnt] at hp
    rw [h.alloccnt, hc.alloccnt p hp]
    congr 1
    ext offset
    rw [hs.mem_pageAllocated_iff, (h.sized hs).mem_pageAllocated_iff, h.pageSize, h.alloc]

theorem Grown.pageSize {T T' : DbTable} (hg : Grown T T') : T'.pageSize = T.pageSize := by
  rw [DbTable.pageSize, hg.pageMask, DbTable.pageSize]

theorem Grown.cap {T T' : DbTable} (hg : Grown T T') : T'.cap = T.cap + T.pageSize := by
  rw [DbTable.cap, hg.pageCnt, hg.pageSize, Nat.succ_mul, DbTable.cap]

theorem Grown.allocated {T T' : DbTable} (hg : Grown T T') : T'.allocated = T.allocated := by
  ext id
  rw [mem_allocated, mem_allocated, hg.cap, hg.alloc]
  split_ifs with h1 h2
  · simp [h1, show id < T.cap + T.pageSize by omega]
  · simp [h1]
  · simp [h1, h2]

/-- The pages of a grown table are counted as before, and the new one is empty. -/
theorem Grown.alloccnt_eq_card {T T' : DbTable} (hg : Grown T T') (hs : T.Sized) (hs' : T'.Sized)
    (hcnt : ∀ p, p < T.pageCnt → (T.pages p).alloccnt = (T.pageAllocated p).card) :
    ∀ p, p < T'.pageCnt → (T'.pages p).alloccnt = (T'.pageAllocated p).card := by
  intro p hp
  rw [hg.pageCnt] at hp
  have hmem : ∀ offset, offset ∈ T'.pageAllocated p ↔
      p ≠ T.pageCnt ∧ offset ∈ T.pageAllocated p := by
    intro offset
    rw [hs'.mem_pageAllocated_iff, hs.mem_pageAllocated_iff, hg.pageSize, hg.alloc]
    by_cases hoff : offset < T.pageSize
    · by_cases hpn : p = T.pageCnt
      · subst hpn
        rw [if_neg (by rw [DbTable.cap]; omega), if_pos (by rw [DbTable.cap]; omega)]
        simp
      · have := addr_lt (k := 0) (show p < T.pageCnt by omega) hoff
        rw [if_pos (by rw [DbTable.cap]; omega)]
        simp [hpn]
    · simp [hoff]
  rw [hg.alloccnt]
  split_ifs with hpn
  · rw [eq_comm, Finset.card_eq_zero]
    exact Finset.eq_empty_of_forall_notMem fun o ho => ((hmem o).mp ho).1 hpn
  · rw [hcnt p (by omega)]
    congr 1
    ext o
    rw [hmem]
    simp [hpn]

theorem Grown.refilled {T T' : DbTable} {free : List Nat} (hg : Grown T.counting T')
    (hi : T.Inv free) (hs' : T'.Sized) : Refilled T T' where
  pageShift := hg.pageShift
  pageMask := hg.pageMask
  allocCnt := hg.allocCnt
  topIdx := hg.topIdx
  bottomIdx := hg.bottomIdx
  allocated := hg.allocated
  counted := ⟨hi.allocCnt.trans (congrArg Finset.card hg.allocated.symm),
    hg.alloccnt_eq_card hi.sized hs' hi.alloccnt⟩
  zero := by
    rw [hg.alloc]
    split_ifs
    · exact hi.zero
    · rfl
    · exact hi.zero

theorem refill_spec {T : DbTable} {free : List Nat} (hi : T.Inv free) :
    ∃ T', T.counting.fillFreeList = some T' ∧
      T'.Linked (T.refill free) ∧ Refilled T T' ∧
      ∀ id, id ≠ 0 → id < T'.cap → (T'.slot id).alloc = false → id ∈ T.refill free := by
  have hlinked₀ : T.counting.Linked free := ⟨hi.sized, hi.chain, hi.nodup, hi.lt_cap, hi.unused⟩
  by_cases hfree : free = []
  · subst hfree
    have hz : T.counting.freeList = 0 := hi.chain
    obtain ⟨T', hnew, hlinked, hg⟩ := newPage_spec hlinked₀
    refine ⟨T', by rw [fillFreeList, if_pos hz]; exact hnew, by rw [refill, if_pos rfl]; exact hlinked,
      hg.refilled hi hlinked.sized, fun id h0 hlt halloc => ?_⟩
    rw [hg.cap] at hlt
    rw [refill, if_pos rfl, newIds, mem_pageIds]
    refine ⟨h0, ?_, hlt⟩
    by_contra hle
    have hcap : id < T.counting.cap := Nat.lt_of_not_le hle
    rw [hg.alloc, if_pos hcap] at halloc
    exact List.not_mem_nil (hi.complete id h0 hcap halloc)
  · have hz : T.counting.freeList ≠ 0 := by
      cases free with
      | nil => exact absurd rfl hfree
      | cons a free =>
          have hhead : T.counting.freeList = a := hi.chain.1
          rw [hhead]
          exact hi.chain.2.1
    refine ⟨T.counting, by rw [fillFreeList, if_neg hz], by simpa [refill, hfree] using hlinked₀,
      ⟨rfl, rfl, rfl, rfl, rfl, rfl, hi.toCounted, hi.zero⟩, fun id h0 hlt halloc => ?_⟩
    rw [refill, if_neg hfree]
    exact hi.complete id h0 hlt halloc

theorem useSlot_eq (T : DbTable) (id : Nat) : T.useSlot id =
    { (T.setSlot id { DbSlot.zero with alloc := true }).setAlloccnt (id >>> T.pageShift)
        ((T.pages (id >>> T.pageShift)).alloccnt + 1) with
      topIdx := if id > T.topIdx then id else T.topIdx
      bottomIdx := if T.bottomIdx = 0 ∨ id < T.bottomIdx then id else T.bottomIdx } := by
  rw [← alloccnt_setSlot T id { DbSlot.zero with alloc := true } (id >>> T.pageShift)]
  by_cases htop : id > T.topIdx <;> by_cases hbottom : T.bottomIdx = 0 ∨ id < T.bottomIdx <;>
    (simp only [useSlot, setAlloccnt_topIdx, setSlot_topIdx, setSlot_pageShift, htop, if_true,
      if_false, setAlloccnt_bottomIdx, setSlot_bottomIdx, hbottom]; try rfl)

theorem useSlot_alloccnt (T : DbTable) (id p : Nat) : ((T.useSlot id).pages p).alloccnt =
    if p = id >>> T.pageShift then (T.pages p).alloccnt + 1 else (T.pages p).alloccnt := by
  rw [useSlot_eq]
  refine (alloccnt_setAlloccnt _ _ _ _).trans ?_
  rw [alloccnt_setSlot]
  split_ifs with hp
  · rw [hp]
  · rfl

theorem useSlot_slot (T : DbTable) (id : Nat) :
    (T.useSlot id).slot = (T.setSlot id { DbSlot.zero with alloc := true }).slot := by
  rw [useSlot_eq]
  exact slot_setAlloccnt _ _ _

theorem useSlot_toggles {T : DbTable} (h : T.Sized) (id : Nat) :
    Toggles T (T.useSlot id) id true := by
  refine ⟨by rw [useSlot_eq]; rfl, by rw [useSlot_eq]; rfl, by rw [useSlot_eq]; rfl, fun a => ?_⟩
  rw [useSlot_slot, h.alloc_setSlot]

/-- Using a slot that is off the free list leaves the list as it is. -/
theorem Linked.useSlot {T : DbTable} {free : List Nat} (h : T.Linked free) {id : Nat}
    (hid : id ∉ free) : (T.useSlot id).Linked free := by
  have hs := h.sized
  refine ⟨(useSlot_toggles hs id).sized hs, ?_, h.nodup, ?_, ?_⟩
  · rw [useSlot_slot]
    have hhead : (T.useSlot id).freeList = T.freeList := by rw [useSlot_eq]; rfl
    rw [hhead]
    refine h.chain.congr (fun a ha => ?_) (fun a ha => ?_) <;>
    · rw [hs.slot_setSlot, Function.update_of_ne]
      rintro rfl
      exact hid ha
  · intro a ha
    rw [(useSlot_toggles hs id).cap]
    exact h.lt_cap a ha
  · intro a ha
    rw [(useSlot_toggles hs id).alloc, if_neg]
    · exact h.unused a ha
    · rintro rfl
      exact hid ha

/-- `create` hands out the head of the refilled free list; it fails only where that list is empty. -/
theorem create_spec {T : DbTable} {free : List Nat} (hi : T.Inv free) :
    match T.refill free with
    | [] => T.create = none
    | id :: rest => ∃ T', T.create = some (id, T') ∧ T'.Inv rest ∧ id ∉ T.allocated ∧
        T'.allocated = insert id T.allocated ∧ T'.pageShift = T.pageShift ∧
        T'.pageMask = T.pageMask := by
  obtain ⟨T₁, hfill, hlinked₁, href, hcomplete⟩ := refill_spec hi
  cases hfree : T.refill free with
  | nil =>
      rw [hfree] at hlinked₁
      change T.create = none
      rw [create, hfill]
      simp [popQ_nil hlinked₁]
  | cons id rest =>
      rw [hfree] at hlinked₁ hcomplete
      obtain ⟨T₂, hpop, hlinked₂, hsame⟩ := popQ_spec hlinked₁
      obtain ⟨hrest, -⟩ := List.nodup_cons.mp hlinked₁.nodup
      have hid : id ∈ id :: rest := List.mem_cons_self
      have hid0 : id ≠ 0 := hlinked₁.chain.ne_zero id hid
      have hcap : id < T₂.cap := by rw [hsame.cap]; exact hlinked₁.lt_cap id hid
      -- the table as it would be had the new object not been counted yet
      set T₀ : DbTable := { T₂ with allocCnt := T.allocCnt } with hT₀
      have hs₀ : T₀.Sized := hlinked₂.sized
      have hc₀ : T₀.Counted := by
        have hsame₀ : SameObjects { T₁ with allocCnt := T.allocCnt } T₀ :=
          ⟨hsame.pageMask, hsame.pageShift, hsame.pageCnt, hsame.topIdx, hsame.bottomIdx, rfl,
            hsame.alloc, hsame.alloccnt⟩
        exact hsame₀.counted hlinked₁.sized href.counted
      have hall₀ : T₀.allocated = T.allocated := hsame.allocated.trans href.allocated
      have ht : Toggles T₀ (T₂.useSlot id) id true :=
        let ht := useSlot_toggles hlinked₂.sized id
        ⟨ht.pageMask, ht.pageShift, ht.pageCnt, ht.alloc⟩
      have hnew : id ∉ T₀.allocated := by
        rw [mem_allocated]
        rintro ⟨-, ha⟩
        have hu : (T₂.slot id).alloc = false := by
          rw [hsame.alloc]
          exact hlinked₁.unused id hid
        exact Bool.false_ne_true (hu.symm.trans ha)
      have hall : (T₂.useSlot id).allocated = insert id T.allocated := by
        rw [ht.allocated_true hcap, hall₀]
      refine ⟨T₂.useSlot id, ?_, ⟨hlinked₂.useSlot hrest, ?_, ?_, ?_, ?_, ?_⟩, hall₀ ▸ hnew, hall,
        ?_, ?_⟩
      · rw [create, hfill]
        simp [hpop]
      · refine ht.counted_true hs₀ hc₀ hcap hnew ?_ fun p => ?_
        · have : (T₂.useSlot id).allocCnt = T₂.allocCnt := by rw [useSlot_eq]; rfl
          rw [this, hsame.allocCnt, href.allocCnt]
        · rw [useSlot_alloccnt, hlinked₂.sized.shift]
          rfl
      · rw [ht.alloc, if_neg hid0.symm]
        exact (hsame.alloc 0).trans href.zero
      · intro a ha0 hlt halloc
        rw [ht.cap] at hlt
        rw [ht.alloc] at halloc
        split_ifs at halloc with ha
        have hmem := hcomplete a ha0 (by rw [← hsame.cap]; exact hlt)
          (by rw [← hsame.alloc]; exact halloc)
        exact (List.mem_cons.mp hmem).resolve_left ha
      · rw [hall]
        have hb : (T₂.useSlot id).bottomIdx =
            if T.bottomIdx = 0 ∨ id < T.bottomIdx then id else T.bottomIdx := by
          rw [useSlot_eq, ← href.bottomIdx, ← hsame.bottomIdx]
        rw [hb]
        exact isBottom_insert hi.bottom hid0 fun a ha => hi.ne_zero ha
      · rw [hall]
        have htop : (T₂.useSlot id).topIdx = if id > T.topIdx then id else T.topIdx := by
          rw [useSlot_eq, ← href.topIdx, ← hsame.topIdx]
        rw [htop]
        exact isTop_insert hi.top
      · rw [ht.pageShift, ← href.pageShift]
        exact hsame.pageShift
      · rw [ht.pageMask, ← href.pageMask]
        exact hsame.pageMask

/-! ### `destroy` -/

theorem freeSlot_slot {T : DbTable} (h : T.Sized) (id : Nat) :
    (T.freeSlot id).slot = Function.update T.slot id { T.slot id with alloc := false } := by
  set T₁ : DbTable := ({ T with allocCnt := T.allocCnt - 1 } : DbTable).setAlloccnt
    (id >>> T.pageShift) ((T.pages (id >>> T.pageShift)).alloccnt - 1) with hT₁
  have hs₁ : T₁.Sized := h
  have hslot : T₁.slot = T.slot := slot_setAlloccnt { T with allocCnt := T.allocCnt - 1 } _ _
  rw [← hslot]
  exact hs₁.slot_setSlot id _

theorem freeSlot_alloccnt (T : DbTable) (id p : Nat) : ((T.freeSlot id).pages p).alloccnt =
    if p = id >>> T.pageShift then (T.pages p).alloccnt - 1 else (T.pages p).alloccnt := by
  refine (alloccnt_setSlot _ _ _ _).trans ((alloccnt_setAlloccnt _ _ _ _).trans ?_)
  split_ifs with hp
  · rw [hp]
  · rfl

theorem freeSlot_toggles {T : DbTable} (h : T.Sized) (id : Nat) :
    Toggles T (T.freeSlot id) id false := by
  refine ⟨rfl, rfl, rfl, fun a => ?_⟩
  rw [freeSlot_slot h]
  by_cases ha : a = id
  · subst ha; simp
  · simp [ha]

/-- Freeing a slot in use leaves the free list as it is. -/
theorem Linked.freeSlot {T : DbTable} {free : List Nat} (h : T.Linked free) {id : Nat}
    (hid : (T.slot id).alloc = true) : (T.freeSlot id).Linked free := by
  have hs := h.sized
  have hne : ∀ a ∈ free, a ≠ id := by
    rintro a ha rfl
    exact Bool.false_ne_true ((h.unused a ha).symm.trans hid)
  refine ⟨(freeSlot_toggles hs id).sized hs, ?_, h.nodup, ?_, ?_⟩
  · rw [freeSlot_slot hs]
    exact h.chain.congr (fun a ha => by rw [Function.update_of_ne (hne a ha)])
      (fun a ha => by rw [Function.update_of_ne (hne a ha)])
  · intro a ha
    rw [(freeSlot_toggles hs id).cap]
    exact h.lt_cap a ha
  · intro a ha
    rw [(freeSlot_toggles hs id).alloc, if_neg (hne a ha)]
    exact h.unused a ha

theorem dropBottom_spec {T : DbTable} {s : Finset Nat} {id : Nat} (h : T.Sized) (hc : T.Counted)
    (hcap : id < T.cap) (hb : IsBottom s T.bottomIdx) (hid : id ∈ s)
    (hall : T.allocated = s.erase id) :
    ∃ b, T.dropBottom id = some { T with bottomIdx := b } ∧ IsBottom T.allocated b := by
  by_cases heq : id = T.bottomIdx
  · rw [dropBottom, if_pos heq]
    refine findBottom_spec h hc (heq ▸ hcap) fun a ha => ?_
    rw [hall, Finset.mem_erase] at ha
    rcases hb with ⟨rfl, -⟩ | hb
    · exact absurd hid (Finset.notMem_empty id)
    · exact lt_of_le_of_ne (hb.2 ha.2) fun h => ha.1 (by rw [heq, h])
  · exact ⟨T.bottomIdx, by rw [dropBottom, if_neg heq], hall ▸ isBottom_erase hb heq⟩

theorem dropTop_spec {T : DbTable} {s : Finset Nat} {id : Nat} (h : T.Sized) (hc : T.Counted)
    (hcap : id < T.cap) (ht : IsTop s T.topIdx) (hid : id ∈ s) (hall : T.allocated = s.erase id) :
    ∃ t, T.dropTop id = some { T with topIdx := t } ∧ IsTop T.allocated t := by
  by_cases heq : id = T.topIdx
  · rw [dropTop, if_pos heq]
    refine findTop_spec h hc (heq ▸ hcap) fun a ha => ?_
    rw [hall, Finset.mem_erase] at ha
    rcases ht with ⟨rfl, -⟩ | ht
    · exact absurd hid (Finset.notMem_empty id)
    · exact lt_of_le_of_ne (ht.2 ha.2) fun h => ha.1 (by rw [heq, h])
  · exact ⟨T.topIdx, by rw [dropTop, if_neg heq], hall ▸ isTop_erase ht heq⟩

/-- `destroy` of an id in use puts it in front of the free list. -/
theorem destroy_spec {T : DbTable} {free : List Nat} (hi : T.Inv free) {id : Nat}
    (hid : id ∈ T.allocated) :
    ∃ T', T.destroy id = some T' ∧ T'.Inv (id :: free) ∧ T'.allocated = T.allocated.erase id ∧
      T'.pageShift = T.pageShift ∧ T'.pageMask = T.pageMask := by
  obtain ⟨hcap, halloc⟩ := mem_allocated.mp hid
  have hid0 := hi.ne_zero hid
  have ht := freeSlot_toggles hi.sized id
  have hs₁ : (T.freeSlot id).Sized := ht.sized hi.sized
  have hc₁ : (T.freeSlot id).Counted := by
    refine ht.counted_false hi.sized hi.toCounted hid rfl fun p => ?_
    rw [freeSlot_alloccnt, hi.sized.shift]
  have hunused : ((T.freeSlot id).slot id).alloc = false := by rw [ht.alloc, if_pos rfl]
  obtain ⟨T₂, hpush, hlinked₂, hsame⟩ := pushQ_spec (hi.toLinked.freeSlot halloc) hid0
    (by rw [ht.cap]; exact hcap) hunused fun h => (hi.mem_free_iff.mp h).2 hid
  have hall₂ : T₂.allocated = T.allocated.erase id := hsame.allocated.trans ht.allocated_false
  have hcap₂ : T₂.cap = T.cap := hsame.cap.trans ht.cap
  have hc₂ := hsame.counted hs₁ hc₁
  obtain ⟨b, hbottom, hb⟩ := dropBottom_spec hlinked₂.sized hc₂ (by rw [hcap₂]; exact hcap)
    (by rw [hsame.bottomIdx]; exact hi.bottom) hid hall₂
  set T₃ : DbTable := { T₂ with bottomIdx := b } with hT₃
  have hc₃ : T₃.Counted := ⟨hc₂.allocCnt, hc₂.alloccnt⟩
  obtain ⟨t, htop, ht'⟩ := dropTop_spec (T := T₃) (s := T.allocated) hlinked₂.sized hc₃
    (hcap₂.symm ▸ hcap : id < T₂.cap) (hsame.topIdx.symm ▸ hi.top) hid hall₂
  refine ⟨{ T₃ with topIdx := t }, ?_, ?_, hall₂, ?_, ?_⟩
  · rw [destroy, if_pos ((validId_iff hi).mpr hid)]
    simp only [Option.bind_eq_bind, hpush, Option.bind_some, hbottom, htop]
  · refine ⟨⟨hlinked₂.sized, hlinked₂.chain, hlinked₂.nodup, hlinked₂.lt_cap, hlinked₂.unused⟩,
      ⟨hc₂.allocCnt, hc₂.alloccnt⟩, ?_, fun a ha0 hlt ha => ?_, hb, ht'⟩
    · change (T₂.slot 0).alloc = false
      rw [hsame.alloc, ht.alloc, if_neg hid0.symm, hi.zero]
    · change (T₂.slot a).alloc = false at ha
      rw [hsame.alloc, ht.alloc] at ha
      by_cases hae : a = id
      · exact hae ▸ List.mem_cons_self
      · rw [if_neg hae] at ha
        exact List.mem_cons_of_mem _ (hi.complete a ha0 (by rw [← hcap₂]; exact hlt) ha)
  · exact hsame.pageShift
  · exact hsame.pageMask

theorem destroy_none {T : DbTable} {free : List Nat} (hi : T.Inv free) {id : Nat}
    (hid : id ∉ T.allocated) : T.destroy id = none := by
  rw [destroy, if_neg]
  rwa [validId_iff hi]

/-! ### Every table reached -/

theorem allocated_init (pageShift : Nat) : (init pageShift).allocated = ∅ := by
  simp [allocated, cap, init]

theorem inv_init (pageShift : Nat) : (init pageShift).Inv [] := by
  have hall := allocated_init pageShift
  refine ⟨⟨rfl, rfl, List.nodup_nil, by simp, by simp⟩, ⟨by rw [hall]; rfl, ?_⟩, rfl, ?_,
    Or.inl ⟨hall, rfl⟩, Or.inl ⟨hall, rfl⟩⟩
  · intro p hp
    exact absurd hp (Nat.not_lt_zero p)
  · intro id _ hlt
    simp [cap, init] at hlt

/-- Some free list makes the invariant hold. -/
def Ok (T : DbTable) : Prop := ∃ free, T.Inv free

theorem Ok.zero_notMem {T : DbTable} (h : T.Ok) : 0 ∉ T.allocated := by
  obtain ⟨free, hi⟩ := h
  exact fun h0 => hi.ne_zero h0 rfl

theorem Ok.validId_iff {T : DbTable} (h : T.Ok) {id : Nat} :
    T.validId id = true ↔ id ∈ T.allocated := by
  obtain ⟨free, hi⟩ := h
  exact DbTable.validId_iff hi

/-- What `create` did, where it returned. -/
theorem Ok.create {T T' : DbTable} {id : Nat} (h : T.Ok) (hcreate : T.create = some (id, T')) :
    T'.Ok ∧ id ≠ 0 ∧ id ∉ T.allocated ∧ T'.allocated = insert id T.allocated := by
  obtain ⟨free, hi⟩ := h
  have hspec := create_spec hi
  cases hfree : T.refill free with
  | nil =>
      rw [hfree] at hspec
      exact absurd (hspec.symm.trans hcreate) (by simp)
  | cons id₁ rest =>
      rw [hfree] at hspec
      obtain ⟨T₁, hcreate₁, hi₁, hnew, hall, -⟩ := hspec
      obtain ⟨rfl, rfl⟩ : id₁ = id ∧ T₁ = T' := by simpa using hcreate₁.symm.trans hcreate
      exact ⟨⟨rest, hi₁⟩, hi₁.ne_zero (by rw [hall]; simp), hnew, hall⟩

/-- What `destroy` did, where it returned. -/
theorem Ok.destroy {T T' : DbTable} {id : Nat} (h : T.Ok) (hdestroy : T.destroy id = some T') :
    T'.Ok ∧ id ∈ T.allocated ∧ T'.allocated = T.allocated.erase id := by
  obtain ⟨free, hi⟩ := h
  have hid : id ∈ T.allocated := by
    by_contra hid
    exact absurd ((destroy_none hi hid).symm.trans hdestroy) (by simp)
  obtain ⟨T₁, hdestroy₁, hi₁, hall, -⟩ := destroy_spec hi hid
  obtain rfl : T₁ = T' := by simpa using hdestroy₁.symm.trans hdestroy
  exact ⟨⟨id :: free, hi₁⟩, hid, hall⟩

theorem ok_step (T : DbTable) (op : TableOp) (T' : DbTable) (hok : T.Ok)
    (hstep : T.step op = some T') : T'.Ok := by
  obtain ⟨⟨e, T₁⟩, hperform, rfl⟩ := Option.map_eq_some_iff.mp hstep
  cases op with
  | create =>
      obtain ⟨⟨id, T₂⟩, hcreate, heq⟩ := Option.map_eq_some_iff.mp hperform
      obtain ⟨-, rfl⟩ : TableEvent.created id = e ∧ T₂ = T₁ := by simpa using heq
      exact (hok.create hcreate).1
  | destroy id =>
      obtain ⟨T₂, hdestroy, heq⟩ := Option.map_eq_some_iff.mp hperform
      obtain ⟨-, rfl⟩ : TableEvent.destroyed id = e ∧ T₂ = T₁ := by simpa using heq
      exact (hok.destroy hdestroy).1

theorem ok_of_run {pageShift : Nat} {ops : List TableOp} {T : DbTable}
    (hrun : Run.run step (init pageShift) ops = some T) : T.Ok :=
  Run.run_invariant_of_step ok_step ⟨[], inv_init pageShift⟩ hrun

end DbTable

end OpenRoad.Db

/-!
The journal refers to objects by their ids, so undoing a `destroy` must hand out the destroyed id
again. It does: after undoing, the free list is the old one, followed by the slots of the pages that
were allocated in between.
-/

namespace OpenRoad.Db

/-- The operation that undoes an event. -/
def TableEvent.undo : TableEvent → TableOp
  | .created id => .destroy id
  | .destroyed _ => .create

/-- The event that undoing an event is to leave. -/
def TableEvent.undone : TableEvent → TableEvent
  | .created id => .destroyed id
  | .destroyed id => .created id

namespace DbTable

/-- `U` is `T` with perhaps more pages, whose slots end its free list. -/
def Restores (T U : DbTable) : Prop :=
  ∃ free extra, T.Inv free ∧ U.Inv (free ++ extra) ∧ U.allocated = T.allocated

theorem Restores.allocated {T U : DbTable} (h : T.Restores U) : U.allocated = T.allocated := by
  obtain ⟨_, _, _, _, hall⟩ := h
  exact hall

theorem Ok.restores {T : DbTable} (h : T.Ok) : T.Restores T := by
  obtain ⟨free, hi⟩ := h
  exact ⟨free, [], hi, by rw [List.append_nil]; exact hi, rfl⟩

theorem ok_perform (T : DbTable) (op : TableOp) (e : TableEvent) (T' : DbTable) (hok : T.Ok)
    (hperform : T.perform op = some (e, T')) : T'.Ok :=
  ok_step T op T' hok (by rw [step, hperform]; rfl)

theorem free_unique {T : DbTable} {free free' : List Nat} (h : T.Inv free) (h' : T.Inv free') :
    free = free' :=
  h.chain.unique h'.chain

theorem undo_create {T T' U' : DbTable} {id : Nat} (hok : T.Ok) (hcreate : T.create = some (id, T'))
    (hR : Restores T' U') : ∃ U, U'.destroy id = some U ∧ Restores T U := by
  obtain ⟨free, hi⟩ := hok
  obtain ⟨rest, extra, hi', hU', hall'⟩ := hR
  have hspec := create_spec hi
  cases hfree : T.refill free with
  | nil =>
      rw [hfree] at hspec
      exact absurd (hspec.symm.trans hcreate) (by simp)
  | cons id₁ rest₁ =>
      rw [hfree] at hspec
      obtain ⟨T₁, hcreate₁, hi₁, hnew, hall, -⟩ := hspec
      obtain ⟨rfl, rfl⟩ : id₁ = id ∧ T₁ = T' := by
        simpa using hcreate₁.symm.trans hcreate
      obtain rfl := free_unique hi₁ hi'
      have hid : id₁ ∈ U'.allocated := by rw [hall', hall]; exact Finset.mem_insert_self _ _
      obtain ⟨U, hdestroy, hU, hallU, -⟩ := destroy_spec hU' hid
      refine ⟨U, hdestroy, ?_⟩
      have hallT : U.allocated = T.allocated := by
        rw [hallU, hall', hall, Finset.erase_insert hnew]
      -- a page allocated by `create` stays behind the old free list, which was empty
      by_cases hempty : free = []
      · subst hempty
        exact ⟨[], id₁ :: rest₁ ++ extra, hi, hU, hallT⟩
      · rw [refill, if_neg hempty] at hfree
        exact ⟨free, extra, hi, by rw [hfree]; exact hU, hallT⟩

theorem undo_destroy {T T' U' : DbTable} {id : Nat} (hok : T.Ok) (hdestroy : T.destroy id = some T')
    (hR : Restores T' U') : ∃ U, U'.create = some (id, U) ∧ Restores T U := by
  obtain ⟨free, hi⟩ := hok
  obtain ⟨free', extra, hi', hU', hall'⟩ := hR
  have hid : id ∈ T.allocated := by
    by_contra hid
    exact absurd ((destroy_none hi hid).symm.trans hdestroy) (by simp)
  obtain ⟨T₁, hdestroy₁, hi₁, hall, -⟩ := destroy_spec hi hid
  obtain rfl : T₁ = T' := by simpa using hdestroy₁.symm.trans hdestroy
  obtain rfl := free_unique hi₁ hi'
  have hspec := create_spec hU'
  rw [refill, if_neg (by simp), List.cons_append] at hspec
  obtain ⟨U, hcreate, hU, -, hallU, -⟩ := hspec
  refine ⟨U, hcreate, free, extra, hi, hU, ?_⟩
  rw [hallU, hall', hall, Finset.insert_erase hid]

/-- `n` calls of `create`. -/
def creates (T : DbTable) : Nat → Option (List Nat × DbTable)
  | 0 => some ([], T)
  | n + 1 => T.create.bind fun r => (r.2.creates n).map fun q => (r.1 :: q.1, q.2)

/-- A `destroy` of each of the ids in turn. -/
def destroys (T : DbTable) (ids : List Nat) : Option DbTable := Run.run destroy T ids

theorem creates_succ {T T' : DbTable} {n : Nat} {ids : List Nat}
    (h : T.creates (n + 1) = some (ids, T')) :
    ∃ id rest T₁, T.create = some (id, T₁) ∧ T₁.creates n = some (rest, T') ∧ ids = id :: rest := by
  obtain ⟨⟨id, T₁⟩, hcreate, hrest⟩ := Option.bind_eq_some_iff.mp h
  obtain ⟨⟨rest, T₂⟩, hcreates, heq⟩ := Option.map_eq_some_iff.mp hrest
  obtain ⟨rfl, rfl⟩ : id :: rest = ids ∧ T₂ = T' := by simpa using heq
  exact ⟨id, rest, T₁, hcreate, hcreates, rfl⟩

theorem undo_creates {T T' U' : DbTable} {n : Nat} {ids : List Nat} (hok : T.Ok)
    (hcreates : T.creates n = some (ids, T')) (hR : Restores T' U') :
    ∃ U, U'.destroys ids.reverse = some U ∧ Restores T U := by
  induction n generalizing T ids with
  | zero =>
      obtain ⟨rfl, rfl⟩ : [] = ids ∧ T = T' := by simpa [creates] using hcreates
      exact ⟨U', rfl, hR⟩
  | succ n ih =>
      obtain ⟨id, rest, T₁, hcreate, hrest, rfl⟩ := creates_succ hcreates
      obtain ⟨U₁, hdestroys, hR₁⟩ := ih (hok.create hcreate).1 hrest
      obtain ⟨U, hdestroy, hU⟩ := undo_create hok hcreate hR₁
      refine ⟨U, ?_, hU⟩
      rw [destroys] at hdestroys
      rw [destroys, List.reverse_cons, Run.run_append, hdestroys]
      simp [hdestroy]

theorem creates_append {T T₁ T₂ : DbTable} {n k : Nat} {ids ids' : List Nat}
    (h : T.creates n = some (ids, T₁)) (h' : T₁.creates k = some (ids', T₂)) :
    T.creates (n + k) = some (ids ++ ids', T₂) := by
  induction n generalizing T ids with
  | zero =>
      obtain ⟨rfl, rfl⟩ : [] = ids ∧ T = T₁ := by simpa [creates] using h
      rw [Nat.zero_add]
      exact h'
  | succ n ih =>
      obtain ⟨id, rest, T₀, hcreate, hrest, rfl⟩ := creates_succ h
      rw [Nat.add_right_comm, creates, hcreate, Option.bind_some, ih hrest]
      rfl

/-- What the `destroy`s did, where they returned. -/
theorem Ok.destroys {T T' : DbTable} {ids : List Nat} (hok : T.Ok) (h : T.destroys ids = some T') :
    T'.Ok ∧ ∀ id, id ∈ T'.allocated ↔ id ∈ T.allocated ∧ id ∉ ids := by
  induction ids generalizing T with
  | nil =>
      obtain rfl : T = T' := by simpa [DbTable.destroys] using h
      exact ⟨hok, by simp⟩
  | cons id ids ih =>
      obtain ⟨T₁, hdestroy, hrest⟩ := Option.bind_eq_some_iff.mp h
      obtain ⟨hok₁, -, hall⟩ := hok.destroy hdestroy
      obtain ⟨hok', hmem⟩ := ih hok₁ hrest
      refine ⟨hok', fun a => ?_⟩
      rw [hmem, hall, Finset.mem_erase, List.mem_cons]
      tauto

theorem undo_destroys {T T' U' : DbTable} {ids : List Nat} (hok : T.Ok)
    (hdestroys : T.destroys ids = some T') (hR : Restores T' U') :
    ∃ U, U'.creates ids.length = some (ids.reverse, U) ∧ Restores T U := by
  induction ids generalizing T with
  | nil =>
      obtain rfl : T = T' := by simpa [destroys] using hdestroys
      exact ⟨U', rfl, hR⟩
  | cons id ids ih =>
      obtain ⟨T₁, hdestroy, hrest⟩ := Option.bind_eq_some_iff.mp hdestroys
      obtain ⟨U₁, hcreates, hR₁⟩ := ih (hok.destroy hdestroy).1 hrest
      obtain ⟨U, hcreate, hU⟩ := undo_destroy hok hdestroy hR₁
      refine ⟨U, ?_, hU⟩
      rw [List.reverse_cons, List.length_cons]
      exact creates_append hcreates (by simp [creates, hcreate])

theorem undo_perform (T : DbTable) (op : TableOp) (e : TableEvent) (T' U' : DbTable) (hok : T.Ok)
    (hperform : T.perform op = some (e, T')) (hR : Restores T' U') :
    ∃ U, U'.perform e.undo = some (e.undone, U) ∧ Restores T U := by
  cases op with
  | create =>
      obtain ⟨⟨id, T₁⟩, hcreate, heq⟩ := Option.map_eq_some_iff.mp hperform
      obtain ⟨rfl, rfl⟩ : TableEvent.created id = e ∧ T₁ = T' := by simpa using heq
      obtain ⟨U, hdestroy, hU⟩ := undo_create hok hcreate hR
      exact ⟨U, by simp [perform, TableEvent.undo, TableEvent.undone, hdestroy], hU⟩
  | destroy id =>
      obtain ⟨T₁, hdestroy, heq⟩ := Option.map_eq_some_iff.mp hperform
      obtain ⟨rfl, rfl⟩ : TableEvent.destroyed id = e ∧ T₁ = T' := by simpa using heq
      obtain ⟨U, hcreate, hU⟩ := undo_destroy hok hdestroy hR
      exact ⟨U, by simp [perform, TableEvent.undo, TableEvent.undone, hcreate], hU⟩

/-- Undoing a sequence of operations, the last one first, succeeds; every `create` it performs returns
the id that was destroyed, and the ids in use are the original ones. -/
theorem undo_restores (pageShift : Nat) (before ops : List TableOp) (T T' : DbTable)
    (events : List TableEvent) (hbefore : Run.run step (init pageShift) before = some T)
    (hops : Run.trace perform T ops = some (events, T')) :
    ∃ U, Run.trace perform T' (events.reverse.map TableEvent.undo) =
        some (events.reverse.map TableEvent.undone, U) ∧ U.allocated = T.allocated := by
  have hok := ok_of_run hbefore
  have hok' : T'.Ok := Run.trace_invariant ok_perform hok hops
  obtain ⟨U, hundo, hR⟩ := Run.undo_trace ok_perform undo_perform hok hops hok'.restores
  exact ⟨U, hundo, hR.allocated⟩

/-- A `destroy` and two `create`s, the second of them on a new page, undone. -/
theorem undo_restores_new_page : ∃ T T' events U,
    Run.run step (init 1) [.create] = some T ∧
    Run.trace perform T [.destroy 1, .create, .create] = some (events, T') ∧
    Run.trace perform T' (events.reverse.map TableEvent.undo) =
      some (events.reverse.map TableEvent.undone, U) ∧ U.allocated = T.allocated := by
  have hruns : ((Run.run step (init 1) [.create]).bind fun T =>
      Run.trace perform T [.destroy 1, .create, .create]).isSome = true := by decide
  obtain ⟨⟨events, T'⟩, hsome⟩ := Option.isSome_iff_exists.mp hruns
  obtain ⟨T, hbefore, hops⟩ := Option.bind_eq_some_iff.mp hsome
  obtain ⟨U, hundo, hall⟩ := undo_restores 1 [.create] _ T T' events hbefore hops
  exact ⟨T, T', events, U, hbefore, hops, hundo, hall⟩

end DbTable

end OpenRoad.Db
