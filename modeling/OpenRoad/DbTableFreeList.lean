import OpenRoad.DbTable
import OpenRoad.LinkedList

/-!
The free list of `dbTable`. Ids and slots correspond, a slot update changes one slot, and the free
list is a well formed chain through unused slots. A push, a pop and a new page are specified by what
they do to that chain; none of them changes an object in use.
-/

namespace OpenRoad.Db
open LinkedList

namespace DbTable

/-! ### Ids, pages and offsets -/

/-- The page size is the power of two that the shift says. -/
def Sized (T : DbTable) : Prop := T.pageMask = 2 ^ T.pageShift - 1

theorem Sized.pageSize {T : DbTable} (h : T.Sized) : T.pageSize = 2 ^ T.pageShift := by
  have := Nat.two_pow_pos T.pageShift
  unfold Sized at h
  unfold DbTable.pageSize
  omega

theorem Sized.and_mask {T : DbTable} (h : T.Sized) (id : Nat) :
    id &&& T.pageMask = id % T.pageSize := by
  rw [h.pageSize, h, Nat.and_two_pow_sub_one_eq_mod]

theorem Sized.shift {T : DbTable} (h : T.Sized) (id : Nat) :
    id >>> T.pageShift = id / T.pageSize := by
  rw [h.pageSize, Nat.shiftRight_eq_div_pow]

theorem Sized.pageSize_pos {T : DbTable} (h : T.Sized) : 0 < T.pageSize := by
  rw [h.pageSize]
  exact Nat.two_pow_pos _

theorem Sized.addr {T : DbTable} (h : T.Sized) (pageId : Nat) :
    pageId <<< T.pageShift = pageId * T.pageSize := by
  rw [h.pageSize, Nat.shiftLeft_eq]

theorem Sized.getOID {T : DbTable} (h : T.Sized) (pageId : Nat) {offset : Nat}
    (hoff : offset < T.pageSize) : T.getOID pageId offset = pageId * T.pageSize + offset := by
  rw [h.pageSize] at hoff
  rw [DbTable.getOID, ← Nat.shiftLeft_add_eq_or_of_lt hoff, h.addr]

/-- The ids of the table's pages. -/
def cap (T : DbTable) : Nat := T.pageCnt * T.pageSize

theorem Sized.page_lt {T : DbTable} (h : T.Sized) {id : Nat} :
    id >>> T.pageShift < T.pageCnt ↔ id < T.cap := by
  rw [h.shift, cap, Nat.div_lt_iff_lt_mul h.pageSize_pos]

theorem Sized.slot_eq {T : DbTable} (h : T.Sized) (id : Nat) :
    T.slot id = (T.pages (id / T.pageSize)).objects (id % T.pageSize) := by
  rw [slot, h.shift, h.and_mask]

theorem Sized.slot_addr {T : DbTable} (h : T.Sized) (pageId : Nat) {offset : Nat}
    (hoff : offset < T.pageSize) :
    T.slot (pageId * T.pageSize + offset) = (T.pages pageId).objects offset := by
  rw [h.slot_eq, Nat.mul_comm, Nat.mul_add_div h.pageSize_pos, Nat.div_eq_of_lt hoff,
    Nat.mul_add_mod, Nat.mod_eq_of_lt hoff, Nat.add_zero]

theorem Sized.id_eq {T : DbTable} (h : T.Sized) {id id' : Nat}
    (hpage : id >>> T.pageShift = id' >>> T.pageShift)
    (hoff : id &&& T.pageMask = id' &&& T.pageMask) : id = id' := by
  rw [h.shift, h.shift] at hpage
  rw [h.and_mask, h.and_mask] at hoff
  rw [← Nat.div_add_mod id T.pageSize, ← Nat.div_add_mod id' T.pageSize, hpage, hoff]

/-! ### Slot updates -/

@[simp] theorem setSlot_pageMask (T : DbTable) (id : Nat) (o : DbSlot) :
    (T.setSlot id o).pageMask = T.pageMask := rfl
@[simp] theorem setSlot_pageShift (T : DbTable) (id : Nat) (o : DbSlot) :
    (T.setSlot id o).pageShift = T.pageShift := rfl
@[simp] theorem setSlot_pageCnt (T : DbTable) (id : Nat) (o : DbSlot) :
    (T.setSlot id o).pageCnt = T.pageCnt := rfl
@[simp] theorem setSlot_pageSize (T : DbTable) (id : Nat) (o : DbSlot) :
    (T.setSlot id o).pageSize = T.pageSize := rfl
@[simp] theorem setSlot_freeList (T : DbTable) (id : Nat) (o : DbSlot) :
    (T.setSlot id o).freeList = T.freeList := rfl
@[simp] theorem setSlot_topIdx (T : DbTable) (id : Nat) (o : DbSlot) :
    (T.setSlot id o).topIdx = T.topIdx := rfl
@[simp] theorem setSlot_bottomIdx (T : DbTable) (id : Nat) (o : DbSlot) :
    (T.setSlot id o).bottomIdx = T.bottomIdx := rfl
@[simp] theorem setSlot_allocCnt (T : DbTable) (id : Nat) (o : DbSlot) :
    (T.setSlot id o).allocCnt = T.allocCnt := rfl

theorem Sized.setSlot {T : DbTable} (h : T.Sized) (id : Nat) (o : DbSlot) :
    (T.setSlot id o).Sized := h

theorem Sized.slot_setSlot {T : DbTable} (h : T.Sized) (id : Nat) (o : DbSlot) :
    (T.setSlot id o).slot = Function.update T.slot id o := by
  funext id'
  by_cases hid : id' = id
  · subst hid
    simp [slot, DbTable.setSlot]
  · rw [Function.update_of_ne hid]
    by_cases hpage : id' >>> T.pageShift = id >>> T.pageShift
    · have hoff : id' &&& T.pageMask ≠ id &&& T.pageMask := fun hoff => hid (h.id_eq hpage hoff)
      simp [slot, DbTable.setSlot, hpage, hoff]
    · simp [slot, DbTable.setSlot, hpage]

@[simp] theorem alloccnt_setSlot (T : DbTable) (id : Nat) (o : DbSlot) (pageId : Nat) :
    ((T.setSlot id o).pages pageId).alloccnt = (T.pages pageId).alloccnt := by
  by_cases hpage : pageId = id >>> T.pageShift
  · subst hpage
    simp [setSlot]
  · simp [setSlot, hpage]

@[simp] theorem setAlloccnt_pageShift (T : DbTable) (pageId n : Nat) :
    (T.setAlloccnt pageId n).pageShift = T.pageShift := rfl
@[simp] theorem setAlloccnt_pageMask (T : DbTable) (pageId n : Nat) :
    (T.setAlloccnt pageId n).pageMask = T.pageMask := rfl
@[simp] theorem setAlloccnt_pageCnt (T : DbTable) (pageId n : Nat) :
    (T.setAlloccnt pageId n).pageCnt = T.pageCnt := rfl
@[simp] theorem setAlloccnt_pageSize (T : DbTable) (pageId n : Nat) :
    (T.setAlloccnt pageId n).pageSize = T.pageSize := rfl
@[simp] theorem setAlloccnt_freeList (T : DbTable) (pageId n : Nat) :
    (T.setAlloccnt pageId n).freeList = T.freeList := rfl
@[simp] theorem setAlloccnt_topIdx (T : DbTable) (pageId n : Nat) :
    (T.setAlloccnt pageId n).topIdx = T.topIdx := rfl
@[simp] theorem setAlloccnt_bottomIdx (T : DbTable) (pageId n : Nat) :
    (T.setAlloccnt pageId n).bottomIdx = T.bottomIdx := rfl
@[simp] theorem setAlloccnt_allocCnt (T : DbTable) (pageId n : Nat) :
    (T.setAlloccnt pageId n).allocCnt = T.allocCnt := rfl

@[simp] theorem slot_setAlloccnt (T : DbTable) (pageId n : Nat) :
    (T.setAlloccnt pageId n).slot = T.slot := by
  funext id
  by_cases hpage : id >>> T.pageShift = pageId
  · subst hpage
    simp [slot, setAlloccnt]
  · simp [slot, setAlloccnt, hpage]

theorem alloccnt_setAlloccnt (T : DbTable) (pageId n p : Nat) :
    ((T.setAlloccnt pageId n).pages p).alloccnt =
      if p = pageId then n else (T.pages p).alloccnt := by
  by_cases hp : p = pageId
  · subst hp
    simp [setAlloccnt]
  · simp [setAlloccnt, hp]

/-! ### The free list -/

/-- The free list runs through `free`, which are ids of unused slots. -/
structure Linked (T : DbTable) (free : List Nat) : Prop where
  sized : T.Sized
  chain : Chain (fun id => (T.slot id).next) (fun id => (T.slot id).prev) 0 T.freeList free
  nodup : free.Nodup
  lt_cap : ∀ id ∈ free, id < T.cap
  unused : ∀ id ∈ free, (T.slot id).alloc = false

/-- The two tables differ at most in the links of their unused slots and the head of the free
list. -/
structure SameObjects (T T' : DbTable) : Prop where
  pageMask : T'.pageMask = T.pageMask
  pageShift : T'.pageShift = T.pageShift
  pageCnt : T'.pageCnt = T.pageCnt
  topIdx : T'.topIdx = T.topIdx
  bottomIdx : T'.bottomIdx = T.bottomIdx
  allocCnt : T'.allocCnt = T.allocCnt
  alloc : ∀ id, (T'.slot id).alloc = (T.slot id).alloc
  alloccnt : ∀ p, (T'.pages p).alloccnt = (T.pages p).alloccnt

theorem SameObjects.trans {T T' T'' : DbTable} (h : SameObjects T T') (h' : SameObjects T' T'') :
    SameObjects T T'' where
  pageMask := h'.pageMask.trans h.pageMask
  pageShift := h'.pageShift.trans h.pageShift
  pageCnt := h'.pageCnt.trans h.pageCnt
  topIdx := h'.topIdx.trans h.topIdx
  bottomIdx := h'.bottomIdx.trans h.bottomIdx
  allocCnt := h'.allocCnt.trans h.allocCnt
  alloc := fun id => (h'.alloc id).trans (h.alloc id)
  alloccnt := fun p => (h'.alloccnt p).trans (h.alloccnt p)

theorem SameObjects.refl (T : DbTable) : SameObjects T T :=
  ⟨rfl, rfl, rfl, rfl, rfl, rfl, fun _ => rfl, fun _ => rfl⟩

theorem SameObjects.pageSize {T T' : DbTable} (h : SameObjects T T') :
    T'.pageSize = T.pageSize := by
  rw [DbTable.pageSize, h.pageMask, DbTable.pageSize]

theorem SameObjects.cap {T T' : DbTable} (h : SameObjects T T') : T'.cap = T.cap := by
  rw [DbTable.cap, h.pageCnt, h.pageSize, DbTable.cap]

theorem Linked.getFreeObj {T : DbTable} {free : List Nat} (h : T.Linked free) {id : Nat}
    (hid : id ∈ free) : T.getFreeObj id = some (T.slot id) := by
  rw [DbTable.getFreeObj, if_pos]
  exact ⟨h.chain.ne_zero id hid, h.sized.page_lt.mpr (h.lt_cap id hid), h.unused id hid⟩

/-- The `next` links after a slot is rewritten. -/
theorem Sized.next_setSlot {T : DbTable} (h : T.Sized) (id : Nat) (o : DbSlot) :
    (fun a => ((T.setSlot id o).slot a).next) =
      Function.update (fun a => (T.slot a).next) id o.next := by
  funext a
  rw [h.slot_setSlot]
  by_cases ha : a = id
  · subst ha; simp
  · simp [ha]

theorem Sized.prev_setSlot {T : DbTable} (h : T.Sized) (id : Nat) (o : DbSlot) :
    (fun a => ((T.setSlot id o).slot a).prev) =
      Function.update (fun a => (T.slot a).prev) id o.prev := by
  funext a
  rw [h.slot_setSlot]
  by_cases ha : a = id
  · subst ha; simp
  · simp [ha]

theorem Sized.alloc_setSlot {T : DbTable} (h : T.Sized) (id a : Nat) (o : DbSlot) :
    ((T.setSlot id o).slot a).alloc = if a = id then o.alloc else (T.slot a).alloc := by
  rw [h.slot_setSlot]
  by_cases ha : a = id
  · subst ha; simp
  · simp [ha]

/-- Rewriting the links of a slot leaves the objects as they are. -/
theorem SameObjects.setSlot {T : DbTable} (h : T.Sized) (id : Nat) (o : DbSlot) (q : Nat)
    (ho : o.alloc = (T.slot id).alloc) :
    SameObjects T { T.setSlot id o with freeList := q } := by
  refine ⟨rfl, rfl, rfl, rfl, rfl, rfl, fun a => ?_, fun p => alloccnt_setSlot T id o p⟩
  change ((T.setSlot id o).slot a).alloc = (T.slot a).alloc
  rw [h.alloc_setSlot]
  split_ifs with ha
  · rw [ho, ha]
  · rfl

theorem pushQ_spec {T : DbTable} {free : List Nat} (h : T.Linked free) {id : Nat} (hid : id ≠ 0)
    (hcap : id < T.cap) (halloc : (T.slot id).alloc = false) (hfree : id ∉ free) :
    ∃ T', T.pushQ id = some T' ∧ T'.Linked (id :: free) ∧ SameObjects T T' := by
  set o : DbSlot := { T.slot id with prev := 0, next := T.freeList } with ho
  set T₁ := T.setSlot id o with hT₁
  have hs₁ : T₁.Sized := h.sized.setSlot id o
  have hsame₁ : SameObjects T T₁ := SameObjects.setSlot h.sized id o T.freeList rfl
  have hnext₁ := h.sized.next_setSlot id o
  have hprev₁ := h.sized.prev_setSlot id o
  -- it remains to read the chain off the two writes, or the one if the list was empty
  suffices hmain : ∃ T', T.pushQ id = some T' ∧ T'.Sized ∧ SameObjects T T' ∧ T'.freeList = id ∧
      (fun a => (T'.slot a).next) = Function.update (fun a => (T.slot a).next) id T.freeList ∧
      (fun a => (T'.slot a).prev) = pushPrev (fun a => (T.slot a).prev) T.freeList id by
    obtain ⟨T', hpush, hs, hsame, hhead, hnext, hprev⟩ := hmain
    refine ⟨T', hpush, ⟨hs, ?_, List.nodup_cons.mpr ⟨hfree, h.nodup⟩, ?_, ?_⟩, hsame⟩
    · rw [hhead, hnext, hprev]
      exact chain_push h.chain h.nodup hid hfree
    · intro a ha
      rw [hsame.cap]
      rcases List.mem_cons.mp ha with rfl | ha
      · exact hcap
      · exact h.lt_cap a ha
    · intro a ha
      rw [hsame.alloc]
      rcases List.mem_cons.mp ha with rfl | ha
      · exact halloc
      · exact h.unused a ha
  by_cases hq : T.freeList = 0
  · refine ⟨{ T₁ with freeList := id }, ?_, hs₁, ?_, rfl, hnext₁, ?_⟩
    · simp [pushQ, hq, hT₁, ho]
    · exact SameObjects.setSlot h.sized id o id rfl
    · refine hprev₁.trans ?_
      simp [pushPrev, hq, ho]
  · have hmem : T.freeList ∈ free := h.chain.head_mem hq
    have hne : T.freeList ≠ id := fun heq => hfree (heq ▸ hmem)
    have hget : T₁.getFreeObj T.freeList = some (T.slot T.freeList) := by
      have hslot : T₁.slot T.freeList = T.slot T.freeList := by
        rw [hT₁, h.sized.slot_setSlot, Function.update_of_ne hne]
      rw [DbTable.getFreeObj, if_pos, hslot]
      exact ⟨hq, h.sized.page_lt.mpr (h.lt_cap _ hmem), by rw [hslot]; exact h.unused _ hmem⟩
    refine ⟨{ T₁.setSlot T.freeList { T.slot T.freeList with prev := id } with freeList := id },
      ?_, hs₁, ?_, rfl, ?_, ?_⟩
    · have hget' : (T.setSlot id o).getFreeObj (T.setSlot id o).freeList =
          some (T.slot T.freeList) := hget
      rw [pushQ]
      simp only [← ho, setSlot_freeList, ne_eq, hq, not_false_eq_true, if_true]
      simp only [← hT₁, hget, Option.bind_eq_bind, Option.bind_some]
    · refine hsame₁.trans (SameObjects.setSlot hs₁ _ _ _ ?_)
      rw [hsame₁.alloc]
    · refine (hs₁.next_setSlot _ _).trans ?_
      rw [hnext₁]
      funext a
      by_cases ha : a = T.freeList
      · subst ha; simp [hne]
      · simp [ha, ho]
    · refine (hs₁.prev_setSlot _ _).trans ?_
      rw [hprev₁]
      funext a
      by_cases ha : a = T.freeList
      · subst ha; simp [pushPrev, hq, hne]
      · by_cases hai : a = id
        · subst hai; simp [pushPrev, ha, ho]
        · simp [pushPrev, hq, ha, hai]

theorem popQ_spec {T : DbTable} {id : Nat} {free : List Nat} (h : T.Linked (id :: free)) :
    ∃ T', T.popQ = some (id, T') ∧ T'.Linked free ∧ SameObjects T T' := by
  obtain ⟨hhead, hid, hprev, hrest⟩ := h.chain
  obtain ⟨hfree, hnd⟩ := List.nodup_cons.mp h.nodup
  have hget := h.getFreeObj (List.mem_cons_self (a := id) (l := free))
  set q := (T.slot id).next with hq
  have hs : ({ T with freeList := q } : DbTable).Sized := h.sized
  by_cases hq0 : q = 0
  · obtain rfl : free = [] := by
      cases free with
      | nil => rfl
      | cons a free => exact absurd (hrest.1.symm.trans hq0) hrest.2.1
    refine ⟨{ T with freeList := q }, ?_, ?_, ⟨rfl, rfl, rfl, rfl, rfl, rfl, fun _ => rfl,
      fun _ => rfl⟩⟩
    · simp [popQ, hhead, hget, ← hq, hq0]
    · exact ⟨hs, hq0, List.nodup_nil, by simp, by simp⟩
  · have hmem : q ∈ free := hrest.head_mem hq0
    have hget' : ({ T with freeList := q } : DbTable).getFreeObj q = some (T.slot q) :=
      h.getFreeObj (List.mem_cons_of_mem _ hmem)
    refine ⟨({ T with freeList := q } : DbTable).setSlot q { T.slot q with prev := 0 }, ?_, ?_, ?_⟩
    · simp only [popQ, hhead, hget, Option.bind_eq_bind, Option.bind_some, ← hq, ne_eq, hq0,
        not_false_eq_true, if_true, hget']
    · refine ⟨hs.setSlot _ _, ?_, hnd, fun a ha => h.lt_cap a (List.mem_cons_of_mem _ ha), ?_⟩
      · rw [hs.next_setSlot, hs.prev_setSlot]
        refine (hrest.reroot (q := 0) hnd).congr (fun a _ => ?_) (fun a _ => rfl)
        by_cases ha : a = q
        · subst ha; simp only [Function.update_self]
        · simp only [Function.update_of_ne ha]; rfl
      · intro a ha
        rw [hs.alloc_setSlot]
        split_ifs with haq
        · exact h.unused q (List.mem_cons_of_mem _ hmem)
        · exact h.unused a (List.mem_cons_of_mem _ ha)
    · exact SameObjects.setSlot (T := T) h.sized q { T.slot q with prev := 0 } q rfl

theorem popQ_nil {T : DbTable} (h : T.Linked []) : T.popQ = none := by
  have hz : T.freeList = 0 := h.chain
  simp [popQ, hz, DbTable.getFreeObj]

/-! ### A new page -/

/-- The ids of the first `n` slots of a page that may be handed out, in increasing order. -/
def pageIds (T : DbTable) (pageId n : Nat) : List Nat :=
  ((List.range n).map fun offset => pageId * T.pageSize + offset).filter (· ≠ 0)

theorem pageIds_succ (T : DbTable) (pageId n : Nat) :
    T.pageIds pageId (n + 1) = T.pageIds pageId n ++
      if pageId * T.pageSize + n = 0 then [] else [pageId * T.pageSize + n] := by
  simp only [pageIds, List.range_succ, List.map_append, List.filter_append, List.map_cons,
    List.map_nil]
  split_ifs with h
  · simp only [h, List.filter_cons, ne_eq, not_true_eq_false, decide_false, Bool.false_eq_true,
      if_false, List.filter_nil]
  · simp only [h, List.filter_cons, ne_eq, not_false_eq_true, decide_true, if_true, List.filter_nil]

theorem mem_pageIds {T : DbTable} {pageId n id : Nat} :
    id ∈ T.pageIds pageId n ↔
      id ≠ 0 ∧ pageId * T.pageSize ≤ id ∧ id < pageId * T.pageSize + n := by
  simp only [pageIds, List.mem_filter, List.mem_map, List.mem_range, decide_eq_true_eq]
  constructor
  · rintro ⟨⟨offset, hoff, rfl⟩, h0⟩
    exact ⟨h0, Nat.le_add_right _ _, by omega⟩
  · rintro ⟨h0, hle, hlt⟩
    exact ⟨⟨id - pageId * T.pageSize, by omega, by omega⟩, h0⟩

theorem linkPage_spec {T : DbTable} {pageId : Nat} (hpage : pageId < T.pageCnt) :
    ∀ (n : Nat) (T₁ : DbTable) (free : List Nat), n ≤ T.pageSize → SameObjects T T₁ →
      T₁.Linked free →
      (∀ offset, offset < n → (T.slot (pageId * T.pageSize + offset)).alloc = false) →
      (∀ id ∈ free, ¬ (pageId * T.pageSize ≤ id ∧ id < pageId * T.pageSize + n)) →
      ∃ T', T₁.linkPage pageId n = some T' ∧ T'.Linked (T.pageIds pageId n ++ free) ∧
        SameObjects T T' := by
  intro n
  induction n with
  | zero =>
      intro T₁ free _ hsame h _ _
      exact ⟨T₁, rfl, h, hsame⟩
  | succ n ih =>
      intro T₁ free hn hsame h halloc hfree
      have hsize : T₁.pageSize = T.pageSize := hsame.pageSize
      have hmono : ∀ id ∈ free, ¬ (pageId * T.pageSize ≤ id ∧ id < pageId * T.pageSize + n) :=
        fun id hid hrange => hfree id hid ⟨hrange.1, by omega⟩
      by_cases hz : pageId = 0 ∧ n = 0
      · have hnil : T.pageIds pageId (n + 1) = T.pageIds pageId n := by
          rw [pageIds_succ, if_pos (by simp [hz.1, hz.2]), List.append_nil]
        rw [hnil, linkPage, if_pos hz]
        exact ih T₁ free (by omega) hsame h (fun o ho => halloc o (by omega)) hmono
      · set id := pageId * T.pageSize + n with hid
        have hid0 : id ≠ 0 := by
          intro h0
          have hpos := h.sized.pageSize_pos
          rw [hsize] at hpos
          rcases Nat.eq_zero_or_pos pageId with hp | hp
          · exact hz ⟨hp, by omega⟩
          · have := Nat.mul_pos hp hpos
            omega
        have hcons : T.pageIds pageId (n + 1) ++ free = T.pageIds pageId n ++ id :: free := by
          rw [pageIds_succ, if_neg hid0, List.append_assoc]
          rfl
        have hoid : T₁.getOID pageId n = id := by
          rw [h.sized.getOID pageId (by omega), hsize]
        have hlt : id < T₁.cap := by
          have : (pageId + 1) * T.pageSize ≤ T.pageCnt * T.pageSize :=
            Nat.mul_le_mul_right _ hpage
          rw [hsame.cap, cap]
          rw [Nat.succ_mul] at this
          omega
        obtain ⟨T₂, hpush, h₂, hsame₂⟩ := pushQ_spec h hid0 hlt
          (by rw [hsame.alloc]; exact halloc n (by omega))
          (fun hmem => hfree id hmem ⟨by omega, by omega⟩)
        rw [hcons, linkPage, if_neg hz, hoid, hpush, Option.bind_some]
        refine ih T₂ (id :: free) (by omega) (hsame.trans hsame₂) h₂
          (fun o ho => halloc o (by omega)) ?_
        intro a ha hrange
        rcases List.mem_cons.mp ha with rfl | ha
        · omega
        · exact hmono a ha hrange

/-- The ids a new page adds to the free list. -/
def newIds (T : DbTable) : List Nat := T.pageIds T.pageCnt T.pageSize

/-- The table after `newPage`: one more page of unused slots, and otherwise the same objects. -/
structure Grown (T T' : DbTable) : Prop where
  pageMask : T'.pageMask = T.pageMask
  pageShift : T'.pageShift = T.pageShift
  pageCnt : T'.pageCnt = T.pageCnt + 1
  topIdx : T'.topIdx = T.topIdx
  bottomIdx : T'.bottomIdx = T.bottomIdx
  allocCnt : T'.allocCnt = T.allocCnt
  alloc : ∀ id, (T'.slot id).alloc = if id < T.cap then (T.slot id).alloc else
    if id < T.cap + T.pageSize then false else (T.slot id).alloc
  alloccnt : ∀ p, (T'.pages p).alloccnt = if p = T.pageCnt then 0 else (T.pages p).alloccnt

theorem newPage_spec {T : DbTable} (h : T.Linked []) :
    ∃ T', T.newPage = some T' ∧ T'.Linked T.newIds ∧ Grown T T' := by
  set T₁ : DbTable := { T with
    pageTblSize := T.grownTblSize
    pageCnt := T.pageCnt + 1
    pages := Function.update T.pages T.pageCnt (DbTablePage.zero (T.pageCnt <<< T.pageShift)) }
    with hT₁
  have hs : T₁.Sized := h.sized
  have hsize : T₁.pageSize = T.pageSize := rfl
  have hpos := h.sized.pageSize_pos
  have halloc : ∀ id, (T₁.slot id).alloc =
      if id / T.pageSize = T.pageCnt then false else (T.slot id).alloc := by
    intro id
    rw [hs.slot_eq, h.sized.slot_eq, hsize]
    by_cases hp : id / T.pageSize = T.pageCnt
    · simp [hT₁, hp, DbTablePage.zero, DbSlot.zero]
    · simp [hT₁, hp]
  have hlinked : T₁.Linked [] := ⟨hs, h.chain, List.nodup_nil, by simp, by simp⟩
  have hunused : ∀ offset, offset < T.pageSize →
      (T₁.slot (T.pageCnt * T.pageSize + offset)).alloc = false := by
    intro offset hoff
    rw [halloc, if_pos]
    rw [Nat.mul_comm, Nat.mul_add_div hpos, Nat.div_eq_of_lt hoff, Nat.add_zero]
  have hpage : T.pageCnt < T₁.pageCnt := Nat.lt_succ_self _
  obtain ⟨T', hlink, hT', hsame⟩ := linkPage_spec hpage T₁.pageSize T₁ [] le_rfl
    (SameObjects.refl T₁) hlinked hunused (by simp)
  rw [List.append_nil] at hT'
  refine ⟨T', hlink, hT', ⟨hsame.pageMask, hsame.pageShift, hsame.pageCnt,
    hsame.topIdx, hsame.bottomIdx, hsame.allocCnt, fun id => ?_, fun p => ?_⟩⟩
  · rw [hsame.alloc, halloc]
    have hdiv : id / T.pageSize = T.pageCnt ↔ T.cap ≤ id ∧ id < T.cap + T.pageSize := by
      rw [Nat.div_eq_iff hpos, cap]
      constructor
      · rintro ⟨h1, h2⟩; omega
      · rintro ⟨h1, h2⟩; omega
    by_cases hp : id / T.pageSize = T.pageCnt
    · obtain ⟨h1, h2⟩ := hdiv.mp hp
      rw [if_pos hp, if_neg (by omega), if_pos h2]
    · rw [if_neg hp]
      by_cases h1 : id < T.cap
      · rw [if_pos h1]
      · rw [if_neg h1, if_neg]
        intro h2
        exact hp (hdiv.mpr ⟨by omega, h2⟩)
  · rw [hsame.alloccnt]
    by_cases hp : p = T.pageCnt
    · subst hp; simp [hT₁, DbTablePage.zero]
    · simp [hT₁, hp]

end DbTable

end OpenRoad.Db
