import OpenRoad.ByteReader
import OpenRoad.DbTableSpec
import Mathlib.Data.List.Count

/-!
A `dbTable` in a stream. Each slot is written with a byte that says whether it holds an object, then
the object, or the links of the free list. The ids and the counters of the pages are not stored; they
are found again as the pages are read.
-/

namespace OpenRoad.Db
open ByteReader LinkedList

/-- A table with its objects, by their ids, and the list of its properties. -/
structure ObjectTable (α : Type) where
  table : DbTable
  objects : Nat → Option α
  propList : Nat

/-- Why reading ends: there are no more bytes. -/
inductive StreamError where
  | eof
  deriving DecidableEq

/-- A value of type `uint` in a stream. -/
def uintBytes (n : Nat) : List UInt8 := wordBytes (UInt32.ofNat n)

def readUint : Reader StreamError Nat := do
  let w ← word .eof
  pure w.toNat

theorem reads_readUint {n : Nat} (h : n < 2 ^ 32) : Reads readUint (uintBytes n) n := by
  have hread := (reads_word StreamError.eof (UInt32.ofNat n)).bind_pure (f := UInt32.toNat)
  rwa [UInt32.toNat_ofNat_of_lt' h] at hread

namespace ObjectTable

variable {α : Type}

/-! ### The objects of a table -/

/-- An object is constructed, changed or destroyed. -/
inductive ObjectOp (α : Type) where
  | create (o : α)
  | assign (id : Nat) (o : α)
  | destroy (id : Nat)

/-- A new table. -/
def init (pageShift : Nat) : ObjectTable α := ⟨DbTable.init pageShift, fun _ => none, 0⟩

def step (S : ObjectTable α) : ObjectOp α → Option (ObjectTable α)
  | .create o => S.table.create.map fun (id, T) =>
      { S with table := T, objects := Function.update S.objects id (some o) }
  | .assign id o =>
      if S.table.validId id then some { S with objects := Function.update S.objects id (some o) }
      else none
  | .destroy id => (S.table.destroy id).map fun T =>
      { S with table := T, objects := Function.update S.objects id none }

/-! ### `operator<<` -/

variable (writeObj : α → List UInt8) (S : ObjectTable α)

/-- The slot at an offset of a page. -/
def writeSlot (pageId offset : Nat) : List UInt8 :=
  let slot := (S.table.pages pageId).objects offset
  if slot.alloc then 1 :: ((S.objects (S.table.getOID pageId offset)).map writeObj).getD []
  else 0 :: (uintBytes slot.next ++ uintBytes slot.prev)

def writePage (pageId : Nat) : List UInt8 :=
  (List.range S.table.pageSize).flatMap (S.writeSlot writeObj pageId)

def write : List UInt8 :=
  uintBytes S.table.pageMask ++ (uintBytes S.table.pageShift ++ (uintBytes S.table.topIdx ++
    (uintBytes S.table.bottomIdx ++ (uintBytes S.table.pageCnt ++ (uintBytes S.table.pageTblSize ++
      (uintBytes S.table.allocCnt ++ (uintBytes S.table.freeList ++
        ((List.range S.table.pageCnt).flatMap (S.writePage writeObj) ++ uintBytes S.propList))))))))

/-! ### `operator>>` -/

/-- A slot as it is read, with its object. -/
abbrev ReadSlot (α : Type) := DbSlot × Option α

def readSlot (readObj : Reader StreamError α) : Reader StreamError (ReadSlot α) := do
  let allocated ← next .eof
  if allocated = 0 then do
    let n ← readUint
    let p ← readUint
    pure (⟨false, n, p⟩, none)
  else do
    let o ← readObj
    pure (⟨true, 0, 0⟩, some o)

/-- The slot at an offset of a page that was read. -/
def readAt (pages : List (List (ReadSlot α))) (pageId offset : Nat) : ReadSlot α :=
  (pages.getD pageId []).getD offset (DbSlot.zero, none)

/-- `readPage`: the objects of the page are counted. -/
def pageOf (pageShift : Nat) (pages : List (List (ReadSlot α))) (pageId : Nat) : DbTablePage where
  pageAddr := pageId <<< pageShift
  alloccnt := (pages.getD pageId []).countP fun slot => slot.1.alloc
  objects := fun offset => (readAt pages pageId offset).1

def read (readObj : Reader StreamError α) : Reader StreamError (ObjectTable α) := do
  let pageMask ← readUint
  let pageShift ← readUint
  let topIdx ← readUint
  let bottomIdx ← readUint
  let pageCnt ← readUint
  let pageTblSize ← readUint
  let allocCnt ← readUint
  let freeList ← readUint
  let pages ← replicate (replicate (readSlot readObj) (pageMask + 1)) pageCnt
  let propList ← readUint
  pure {
    table := {
      pageMask, pageShift, topIdx, bottomIdx, pageCnt, pageTblSize, allocCnt, freeList
      pages := pageOf pageShift pages }
    objects := fun id => (readAt pages (id >>> pageShift) (id &&& pageMask)).2
    propList }

/-! ### `operator==` -/

/-- Whether the two tables have the same object at the id, or both have none. -/
def eqAt [BEq α] (S S' : ObjectTable α) (id : Nat) : Bool :=
  if S.table.validId id ∧ S'.table.validId id then S.objects id == S'.objects id
  else if S.table.validId id then false
  else if S'.table.validId id then false
  else true

/-- `operator==`; `none` where an assertion fails. -/
def eq [BEq α] (S S' : ObjectTable α) : Option Bool :=
  if S.table.pageMask ≠ S'.table.pageMask ∨ S.table.pageShift ≠ S'.table.pageShift then none
  else if S.table.pageCnt = 0 ∧ S'.table.pageCnt = 0 then some true
  else if S.table.pageCnt ≠ S'.table.pageCnt then some false
  else if S.table.bottomIdx ≠ S'.table.bottomIdx then some false
  else if S.table.topIdx ≠ S'.table.topIdx then some false
  else if S.table.allocCnt ≠ S'.table.allocCnt then some false
  else some ((List.range' S.table.bottomIdx (S.table.topIdx + 1 - S.table.bottomIdx)).all (S.eqAt S'))

end ObjectTable

end OpenRoad.Db

/-!
A table read back from what was written of it has the same objects under the same ids, and the same
free list, so that it hands out the same ids ever after.
-/

namespace OpenRoad.Db
open ByteReader LinkedList

namespace DbTable

variable {T T' : DbTable} {free : List Nat}

/-! ### Copies of a table -/

/-- The two tables agree in all but the links of the slots that hold objects, and the counters of the
pages of the second one are right. -/
structure Copy (T T' : DbTable) : Prop where
  pageMask : T'.pageMask = T.pageMask
  pageShift : T'.pageShift = T.pageShift
  topIdx : T'.topIdx = T.topIdx
  bottomIdx : T'.bottomIdx = T.bottomIdx
  pageCnt : T'.pageCnt = T.pageCnt
  allocCnt : T'.allocCnt = T.allocCnt
  freeList : T'.freeList = T.freeList
  alloc : ∀ id < T.cap, (T'.slot id).alloc = (T.slot id).alloc
  next : ∀ id < T.cap, (T.slot id).alloc = false → (T'.slot id).next = (T.slot id).next
  prev : ∀ id < T.cap, (T.slot id).alloc = false → (T'.slot id).prev = (T.slot id).prev
  alloccnt : ∀ p < T.pageCnt, (T'.pages p).alloccnt = (T'.pageAllocated p).card
  zero : (T'.slot 0).alloc = false

theorem Copy.cap (h : Copy T T') : T'.cap = T.cap := by
  unfold DbTable.cap pageSize
  rw [h.pageCnt, h.pageMask]

theorem Copy.allocated (h : Copy T T') : T'.allocated = T.allocated := by
  ext id
  rw [mem_allocated, mem_allocated, h.cap]
  exact and_congr_right fun hid => by rw [h.alloc id hid]

/-- A copy has the same free list. -/
theorem Copy.inv (h : Copy T T') (hi : T.Inv free) : T'.Inv free := by
  have hall := h.allocated
  refine ⟨⟨?_, ?_, hi.nodup, ?_, ?_⟩, ⟨?_, ?_⟩, h.zero, ?_, ?_, ?_⟩
  · have hsized := hi.sized
    unfold Sized at hsized ⊢
    rw [h.pageMask, h.pageShift, hsized]
  · rw [h.freeList]
    exact hi.chain.congr (fun id hid => h.next id (hi.lt_cap id hid) (hi.unused id hid))
      fun id hid => h.prev id (hi.lt_cap id hid) (hi.unused id hid)
  · rw [h.cap]
    exact hi.lt_cap
  · intro id hid
    rw [h.alloc id (hi.lt_cap id hid)]
    exact hi.unused id hid
  · rw [h.allocCnt, hall]
    exact hi.allocCnt
  · intro p hp
    exact h.alloccnt p (h.pageCnt ▸ hp)
  · intro id hid0 hlt hunused
    rw [h.cap] at hlt
    rw [h.alloc id hlt] at hunused
    exact hi.complete id hid0 hlt hunused
  · rw [hall, h.bottomIdx]
    exact hi.bottom
  · rw [hall, h.topIdx]
    exact hi.top

/-! ### Tables that hand out the same ids -/

/-- The tables have the same ids in use, the same free list and the same pages. -/
def Alike (T T' : DbTable) : Prop :=
  ∃ free, T.Inv free ∧ T'.Inv free ∧ T'.pageShift = T.pageShift ∧ T'.pageCnt = T.pageCnt ∧
    T'.allocated = T.allocated

theorem Sized.pageSize_eq (h : T.Sized) (h' : T'.Sized) (hshift : T'.pageShift = T.pageShift) :
    T'.pageSize = T.pageSize := by
  rw [h.pageSize, h'.pageSize, hshift]

/-- The ids of a table that has any are those in use and those on the free list. -/
theorem cap_le_of_inv (hi : T.Inv free) (hi' : T'.Inv free) (hall : T'.allocated = T.allocated)
    (hcap : 0 < T.cap) : T'.cap ≤ T.cap := by
  by_contra hlt
  have hid : T.cap ∈ free ∨ T.cap ∈ T'.allocated := by
    by_cases hmem : T.cap ∈ T'.allocated
    · exact Or.inr hmem
    · exact Or.inl (hi'.mem_free_iff.mpr ⟨⟨by omega, by omega⟩, hmem⟩)
  rcases hid with hmem | hmem
  · exact absurd (hi.lt_cap _ hmem) (lt_irrefl _)
  · rw [hall] at hmem
    exact absurd (mem_allocated.mp hmem).1 (lt_irrefl _)

theorem pageCnt_eq_of_inv (hi : T.Inv free) (hi' : T'.Inv free)
    (hshift : T'.pageShift = T.pageShift) (hall : T'.allocated = T.allocated) {id : Nat}
    (hid : id ∈ T.allocated ∨ id ∈ free) : T'.pageCnt = T.pageCnt := by
  have hlt : id < T.cap ∧ id < T'.cap := by
    rcases hid with hmem | hmem
    · exact ⟨(mem_allocated.mp hmem).1, (mem_allocated.mp (hall ▸ hmem)).1⟩
    · exact ⟨hi.lt_cap _ hmem, hi'.lt_cap _ hmem⟩
  have hcap : T'.cap = T.cap :=
    Nat.le_antisymm (cap_le_of_inv hi hi' hall (by omega))
      (cap_le_of_inv hi' hi hall.symm (by omega))
  unfold cap at hcap
  rw [hi.sized.pageSize_eq hi'.sized hshift] at hcap
  exact Nat.eq_of_mul_eq_mul_right hi.sized.pageSize_pos hcap

theorem refill_congr (hsize : T'.pageSize = T.pageSize) (hcnt : T'.pageCnt = T.pageCnt) : T'.refill free = T.refill free := by
  unfold refill newIds
  have hids : ∀ p n, T'.pageIds p n = T.pageIds p n := by
    intro p n
    unfold pageIds
    rw [hsize]
  rw [hcnt, hsize, hids]

/-- Every operation does the same to tables that are alike. -/
theorem alike_perform (T T' : DbTable) (op : TableOp) (h : Alike T T') :
    T.perform op = none ∧ T'.perform op = none ∨
      ∃ e U U', T.perform op = some (e, U) ∧ T'.perform op = some (e, U') ∧ Alike U U' := by
  obtain ⟨free, hi, hi', hshift, hcnt, hall⟩ := h
  have hsize := hi.sized.pageSize_eq hi'.sized hshift
  cases op with
  | create =>
      have hspec := create_spec hi
      have hspec' := create_spec hi'
      rw [refill_congr hsize hcnt] at hspec'
      cases hfree : T.refill free with
      | nil =>
          rw [hfree] at hspec hspec'
          exact Or.inl ⟨congrArg (Option.map _) hspec, congrArg (Option.map _) hspec'⟩
      | cons id rest =>
          rw [hfree] at hspec hspec'
          obtain ⟨U, hcreate, hU, -, hallU, hshiftU, -⟩ := hspec
          obtain ⟨U', hcreate', hU', -, hallU', hshiftU', -⟩ := hspec'
          have hshift' : U'.pageShift = U.pageShift := by rw [hshiftU', hshiftU, hshift]
          have hall' : U'.allocated = U.allocated := by rw [hallU', hallU, hall]
          have hid : id ∈ U.allocated := by
            rw [hallU]
            exact Finset.mem_insert_self _ _
          exact Or.inr ⟨.created id, U, U', congrArg (Option.map _) hcreate,
            congrArg (Option.map _) hcreate', rest, hU, hU', hshift',
            pageCnt_eq_of_inv hU hU' hshift' hall' (Or.inl hid), hall'⟩
  | destroy id =>
      by_cases hid : id ∈ T.allocated
      · obtain ⟨U, hdestroy, hU, hallU, hshiftU, -⟩ := destroy_spec hi hid
        obtain ⟨U', hdestroy', hU', hallU', hshiftU', -⟩ := destroy_spec hi' (hall ▸ hid)
        have hshift' : U'.pageShift = U.pageShift := by rw [hshiftU', hshiftU, hshift]
        have hall' : U'.allocated = U.allocated := by rw [hallU', hallU, hall]
        exact Or.inr ⟨.destroyed id, U, U', congrArg (Option.map _) hdestroy,
          congrArg (Option.map _) hdestroy', id :: free, hU, hU', hshift',
          pageCnt_eq_of_inv hU hU' hshift' hall' (Or.inr List.mem_cons_self), hall'⟩
      · exact Or.inl ⟨congrArg (Option.map _) (destroy_none hi hid),
          congrArg (Option.map _) (destroy_none hi' (hall ▸ hid))⟩

end DbTable

namespace ObjectTable

variable {α : Type}

/-- The table is in order, and each id in use has an object. -/
structure Ok (S : ObjectTable α) : Prop where
  table : S.table.Ok
  objects : ∀ id, (S.objects id).isSome ↔ id ∈ S.table.allocated

theorem init_ok (pageShift : Nat) : (init pageShift : ObjectTable α).Ok := by
  refine ⟨⟨[], DbTable.inv_init pageShift⟩, fun id => ?_⟩
  have hall : (DbTable.init pageShift).allocated = ∅ := DbTable.allocated_init pageShift
  change Option.isSome (none : Option α) = true ↔ id ∈ (DbTable.init pageShift).allocated
  rw [hall]
  simp

theorem step_ok (S : ObjectTable α) (op : ObjectOp α) (S' : ObjectTable α) (h : S.Ok)
    (hstep : S.step op = some S') : S'.Ok := by
  cases op with
  | create o =>
      obtain ⟨⟨id, T⟩, hcreate, rfl⟩ := Option.map_eq_some_iff.mp hstep
      obtain ⟨hT, -, -, hall⟩ := h.table.create hcreate
      refine ⟨hT, fun a => ?_⟩
      change (Function.update S.objects id (some o) a).isSome ↔ a ∈ T.allocated
      rw [hall, Finset.mem_insert]
      rcases eq_or_ne a id with rfl | hne
      · simp
      · rw [Function.update_of_ne hne, h.objects a]
        simp [hne]
  | assign id o =>
      simp only [step] at hstep
      split_ifs at hstep with hvalid
      obtain rfl := Option.some.inj hstep
      refine ⟨h.table, fun a => ?_⟩
      change (Function.update S.objects id (some o) a).isSome ↔ a ∈ S.table.allocated
      rcases eq_or_ne a id with rfl | hne
      · simpa using h.table.validId_iff.mp hvalid
      · rw [Function.update_of_ne hne, h.objects a]
  | destroy id =>
      obtain ⟨T, hdestroy, rfl⟩ := Option.map_eq_some_iff.mp hstep
      obtain ⟨hT, -, hall⟩ := h.table.destroy hdestroy
      refine ⟨hT, fun a => ?_⟩
      change (Function.update S.objects id none a).isSome ↔ a ∈ T.allocated
      rw [hall, Finset.mem_erase]
      rcases eq_or_ne a id with rfl | hne
      · simp
      · rw [Function.update_of_ne hne, h.objects a]
        simp [hne]

/-! ### What is read -/

variable {writeObj : α → List UInt8} {readObj : Reader StreamError α} {S : ObjectTable α}

/-- The values that the source keeps in fields of type `uint` fit there. -/
structure FitsUint (S : ObjectTable α) : Prop where
  pageMask : S.table.pageMask < 2 ^ 32
  pageShift : S.table.pageShift < 2 ^ 32
  topIdx : S.table.topIdx < 2 ^ 32
  bottomIdx : S.table.bottomIdx < 2 ^ 32
  pageCnt : S.table.pageCnt < 2 ^ 32
  pageTblSize : S.table.pageTblSize < 2 ^ 32
  allocCnt : S.table.allocCnt < 2 ^ 32
  freeList : S.table.freeList < 2 ^ 32
  next : ∀ id < S.table.cap, (S.table.slot id).next < 2 ^ 32
  prev : ∀ id < S.table.cap, (S.table.slot id).prev < 2 ^ 32
  propList : S.propList < 2 ^ 32

/-- A slot as it comes back. -/
def rereadSlot (S : ObjectTable α) (pageId offset : Nat) : ReadSlot α :=
  let slot := (S.table.pages pageId).objects offset
  if slot.alloc then (⟨true, 0, 0⟩, S.objects (S.table.getOID pageId offset))
  else (⟨false, slot.next, slot.prev⟩, none)

def rereadPages (S : ObjectTable α) : List (List (ReadSlot α)) :=
  (List.range S.table.pageCnt).map fun pageId =>
    (List.range S.table.pageSize).map (S.rereadSlot pageId)

/-- The table as it comes back. -/
def reread (S : ObjectTable α) : ObjectTable α where
  table := { S.table with pages := pageOf S.table.pageShift S.rereadPages }
  objects := fun id =>
    (readAt S.rereadPages (id >>> S.table.pageShift) (id &&& S.table.pageMask)).2
  propList := S.propList

theorem slot_lt_cap (hsized : S.table.Sized) {p offset : Nat} (hp : p < S.table.pageCnt)
    (hoff : offset < S.table.pageSize) :
    S.table.getOID p offset < S.table.cap ∧
      S.table.slot (S.table.getOID p offset) = (S.table.pages p).objects offset := by
  rw [hsized.getOID p hoff]
  refine ⟨?_, hsized.slot_addr p hoff⟩
  have hle : (p + 1) * S.table.pageSize ≤ S.table.cap := Nat.mul_le_mul_right _ hp
  rw [Nat.succ_mul] at hle
  omega

theorem reads_readSlot (hok : S.Ok) (hfit : S.FitsUint)
    (hobj : ∀ o, Reads readObj (writeObj o) o) {p offset : Nat} (hp : p < S.table.pageCnt)
    (hoff : offset < S.table.pageSize) :
    Reads (readSlot readObj) (S.writeSlot writeObj p offset) (S.rereadSlot p offset) := by
  obtain ⟨free, hi⟩ := hok.table
  obtain ⟨hlt, hslot⟩ := slot_lt_cap hi.sized hp hoff
  unfold readSlot writeSlot rereadSlot
  dsimp only
  split_ifs with halloc
  · obtain ⟨o, ho⟩ := Option.isSome_iff_exists.mp
      ((hok.objects _).mpr (DbTable.mem_allocated.mpr ⟨hlt, by rw [hslot]; exact halloc⟩))
    rw [ho]
    exact (reads_next StreamError.eof 1).bind (hobj o).bind_pure
  · have hnext := hfit.next _ hlt
    have hprev := hfit.prev _ hlt
    rw [hslot] at hnext hprev
    exact (reads_next StreamError.eof 0).bind
      ((reads_readUint hnext).bind (reads_readUint hprev).bind_pure)

/-- What was written is read, to its end. -/
theorem reads_read (hok : S.Ok) (hfit : S.FitsUint) (hobj : ∀ o, Reads readObj (writeObj o) o) :
    Reads (read readObj) (S.write writeObj) S.reread := by
  have hpage : ∀ p ∈ List.range S.table.pageCnt,
      Reads (replicate (readSlot readObj) (S.table.pageMask + 1)) (S.writePage writeObj p)
        ((List.range S.table.pageSize).map (S.rereadSlot p)) := by
    intro p hp
    have hread := reads_replicate (m := readSlot readObj) (l := List.range S.table.pageSize)
      fun offset hoff => reads_readSlot hok hfit hobj (List.mem_range.mp hp) (List.mem_range.mp hoff)
    rwa [List.length_range] at hread
  have hpages := reads_replicate hpage
  rw [List.length_range] at hpages
  unfold read write
  refine (reads_readUint hfit.pageMask).bind ?_
  refine (reads_readUint hfit.pageShift).bind ?_
  refine (reads_readUint hfit.topIdx).bind ?_
  refine (reads_readUint hfit.bottomIdx).bind ?_
  refine (reads_readUint hfit.pageCnt).bind ?_
  refine (reads_readUint hfit.pageTblSize).bind ?_
  refine (reads_readUint hfit.allocCnt).bind ?_
  refine (reads_readUint hfit.freeList).bind ?_
  exact hpages.bind (reads_readUint hfit.propList).bind_pure

theorem readAt_rereadPages {p offset : Nat} (hp : p < S.table.pageCnt)
    (hoff : offset < S.table.pageSize) : readAt S.rereadPages p offset = S.rereadSlot p offset := by
  unfold readAt rereadPages
  simp [List.getD_eq_getElem?_getD, hp, hoff]

theorem readAt_rereadPages_of_le {p : Nat} (hp : S.table.pageCnt ≤ p) (offset : Nat) :
    readAt S.rereadPages p offset = (DbSlot.zero, none) := by
  unfold readAt rereadPages
  simp [List.getD_eq_getElem?_getD, hp]

theorem slot_reread (hsized : S.table.Sized) {id : Nat} (hid : id < S.table.cap) :
    S.reread.table.slot id = (S.rereadSlot (id / S.table.pageSize) (id % S.table.pageSize)).1 := by
  have hp := hsized.page_lt.mpr hid
  rw [hsized.shift] at hp
  change (readAt S.rereadPages (id >>> S.table.pageShift) (id &&& S.table.pageMask)).1 = _
  rw [hsized.shift, hsized.and_mask, readAt_rereadPages hp (Nat.mod_lt _ hsized.pageSize_pos)]

theorem rereadSlot_alloc (S : ObjectTable α) (p offset : Nat) :
    (S.rereadSlot p offset).1.alloc = ((S.table.pages p).objects offset).alloc := by
  unfold rereadSlot
  dsimp only
  split_ifs with halloc
  · exact halloc.symm
  · exact (Bool.eq_false_of_not_eq_true halloc).symm

theorem card_filter_range (n : Nat) (p : Nat → Bool) :
    ((Finset.range n).filter fun i => p i = true).card = (List.range n).countP p := by
  rw [List.countP_eq_length_filter, ← List.toFinset_card_of_nodup (List.nodup_range.filter _)]
  congr 1
  ext i
  simp

theorem copy_reread (hok : S.Ok) : DbTable.Copy S.table S.reread.table := by
  obtain ⟨free, hi⟩ := hok.table
  have hsized := hi.sized
  have halloc : ∀ id < S.table.cap, (S.reread.table.slot id).alloc = (S.table.slot id).alloc := by
    intro id hid
    rw [slot_reread hsized hid, rereadSlot_alloc, hsized.slot_eq]
  have hlinks : ∀ id < S.table.cap, (S.table.slot id).alloc = false →
      S.reread.table.slot id = ⟨false, (S.table.slot id).next, (S.table.slot id).prev⟩ := by
    intro id hid hfree
    rw [hsized.slot_eq] at hfree ⊢
    rw [slot_reread hsized hid, rereadSlot]
    simp only [hfree, Bool.false_eq_true, if_false]
  refine ⟨rfl, rfl, rfl, rfl, rfl, rfl, rfl, halloc, fun id hid h => by rw [hlinks id hid h],
    fun id hid h => by rw [hlinks id hid h], fun p hp => ?_, ?_⟩
  · change (S.rereadPages.getD p []).countP (fun slot => slot.1.alloc) = ((Finset.range
      S.table.pageSize).filter fun offset => (readAt S.rereadPages p offset).1.alloc = true).card
    have hget : S.rereadPages.getD p [] =
        (List.range S.table.pageSize).map (S.rereadSlot p) := by
      unfold rereadPages
      simp [List.getD_eq_getElem?_getD, hp]
    rw [hget, List.countP_map, ← card_filter_range]
    congr 1
    refine Finset.filter_congr fun offset hoff => ?_
    rw [readAt_rereadPages hp (Finset.mem_range.mp hoff)]
    rfl
  · by_cases hcap : 0 < S.table.cap
    · rw [halloc 0 hcap, hi.zero]
    · have hle : S.table.pageCnt ≤ 0 := by
        by_contra hpos
        exact hcap (Nat.mul_pos (by omega) hsized.pageSize_pos)
      change (readAt S.rereadPages (0 >>> S.table.pageShift) (0 &&& S.table.pageMask)).1.alloc = false
      rw [readAt_rereadPages_of_le (le_trans hle (Nat.zero_le _))]
      rfl

theorem objects_reread (hok : S.Ok) {id : Nat} (hid : id ∈ S.table.allocated) :
    S.reread.objects id = S.objects id := by
  obtain ⟨free, hi⟩ := hok.table
  have hsized := hi.sized
  obtain ⟨hlt, halloc⟩ := DbTable.mem_allocated.mp hid
  have hp := hsized.page_lt.mpr hlt
  rw [hsized.shift] at hp
  have hoff := Nat.mod_lt id hsized.pageSize_pos
  change (readAt S.rereadPages (id >>> S.table.pageShift) (id &&& S.table.pageMask)).2 = _
  rw [hsized.shift, hsized.and_mask, readAt_rereadPages hp hoff, rereadSlot]
  rw [hsized.slot_eq] at halloc
  simp only [halloc, if_true]
  rw [hsized.getOID _ hoff, Nat.div_add_mod']

/-- The tables are equal for `operator==` when they have the same objects. -/
theorem eq_of_same [BEq α] [ReflBEq α] {S' : ObjectTable α} (hmask : S'.table.pageMask = S.table.pageMask)
    (hshift : S'.table.pageShift = S.table.pageShift) (hcnt : S'.table.pageCnt = S.table.pageCnt)
    (hbottom : S'.table.bottomIdx = S.table.bottomIdx) (htop : S'.table.topIdx = S.table.topIdx)
    (hcount : S'.table.allocCnt = S.table.allocCnt)
    (hvalid : ∀ id, S'.table.validId id = S.table.validId id)
    (hobjects : ∀ id, S.table.validId id = true → S'.objects id = S.objects id) :
    S.eq S' = some true := by
  unfold eq
  simp only [hmask, hshift, hcnt, hbottom, htop, hcount, ne_eq, not_true, or_self, if_false]
  split_ifs
  · rfl
  · congr 1
    refine List.all_eq_true.mpr fun id _ => ?_
    unfold eqAt
    rw [hvalid]
    by_cases hid : S.table.validId id = true
    · rw [if_pos ⟨hid, hid⟩, hobjects id hid]
      exact ReflBEq.rfl
    · rw [if_neg fun h => hid h.1, if_neg hid, if_neg hid]

/-! ### Every table reached -/

/-- `S'` is a faithful copy of `S`. -/
structure Faithful [BEq α] (S S' : ObjectTable α) : Prop where
  allocated : S'.table.allocated = S.table.allocated
  objects : ∀ id ∈ S.table.allocated, S'.objects id = S.objects id
  /-- the free lists are the same -/
  free : ∃ free, S.table.Inv free ∧ S'.table.Inv free
  /-- every sequence of calls does the same from now on, and hands out the same ids -/
  future : ∀ ops, (Run.trace DbTable.perform S'.table ops).map Prod.fst =
    (Run.trace DbTable.perform S.table ops).map Prod.fst
  bottomIdx : S'.table.bottomIdx = S.table.bottomIdx
  topIdx : S'.table.topIdx = S.table.topIdx
  allocCnt : S'.table.allocCnt = S.table.allocCnt
  pageCnt : S'.table.pageCnt = S.table.pageCnt
  pageTblSize : S'.table.pageTblSize = S.table.pageTblSize
  alloccnt : ∀ p < S.table.pageCnt, (S'.table.pages p).alloccnt = (S.table.pages p).alloccnt
  propList : S'.propList = S.propList
  eq : S.eq S' = some true

theorem faithful_reread [BEq α] [ReflBEq α] (hok : S.Ok) : Faithful S S.reread := by
  have hcopy := copy_reread hok
  obtain ⟨free, hi⟩ := hok.table
  have hi' := hcopy.inv hi
  have hvalid : ∀ id, S.reread.table.validId id = S.table.validId id := by
    intro id
    rw [Bool.eq_iff_iff, DbTable.validId_iff hi', DbTable.validId_iff hi, hcopy.allocated]
  have hobjects : ∀ id, S.table.validId id = true → S.reread.objects id = S.objects id :=
    fun id hid => objects_reread hok ((DbTable.validId_iff hi).mp hid)
  refine ⟨hcopy.allocated, fun id hid => objects_reread hok hid, ⟨free, hi, hi'⟩, ?_, rfl, rfl, rfl, rfl,
    rfl, ?_, rfl, eq_of_same rfl rfl rfl rfl rfl rfl hvalid hobjects⟩
  · exact Run.trace_congr DbTable.alike_perform ⟨free, hi, hi', rfl, rfl, hcopy.allocated⟩
  · intro p hp
    rw [hcopy.alloccnt p hp, hi.alloccnt p hp]
    congr 1
    ext offset
    rw [hi.sized.mem_pageAllocated_iff, hi'.sized.mem_pageAllocated_iff]
    refine and_congr_right fun hoff => ?_
    have hlt := (slot_lt_cap hi.sized hp hoff).1
    rw [hi.sized.getOID p hoff] at hlt
    exact Bool.eq_iff_iff.mp (hcopy.alloc _ hlt)

/-- In every table reached from a new one by constructing, changing and destroying objects: what is
written is read back as a faithful copy. -/
theorem faithful_read_write [BEq α] [ReflBEq α] {pageShift : Nat} {ops : List (ObjectOp α)}
    (hrun : Run.run step (init pageShift) ops = some S) (hfit : S.FitsUint)
    (hobj : ∀ o, Reads readObj (writeObj o) o) :
    ∃ S', Reads (read readObj) (S.write writeObj) S' ∧ Faithful S S' := by
  have hok : S.Ok := Run.run_invariant_of_step step_ok (init_ok pageShift) hrun
  exact ⟨S.reread, reads_read hok hfit hobj, faithful_reread hok⟩

/-- Three objects on pages of two slots; the one with the id 2 is destroyed. -/
def holes : List (ObjectOp UInt32) :=
  [.create 10, .create 20, .create 30, .destroy 2, .assign 3 31]

/-- The table with the hole comes back as it was. -/
theorem faithful_read_write_holes : ∃ S S' : ObjectTable UInt32,
    Run.run step (init 1) holes = some S ∧ Reads (read (word .eof)) (S.write wordBytes) S' ∧
      Faithful S S' := by
  have hall : (Run.run step (init 1) holes).any (fun S => decide (
      S.table.pageMask < 2 ^ 32 ∧ S.table.pageShift < 2 ^ 32 ∧ S.table.topIdx < 2 ^ 32 ∧
      S.table.bottomIdx < 2 ^ 32 ∧ S.table.pageCnt < 2 ^ 32 ∧ S.table.pageTblSize < 2 ^ 32 ∧
      S.table.allocCnt < 2 ^ 32 ∧ S.table.freeList < 2 ^ 32 ∧
      (∀ id < S.table.cap, (S.table.slot id).next < 2 ^ 32) ∧
      (∀ id < S.table.cap, (S.table.slot id).prev < 2 ^ 32) ∧ S.propList < 2 ^ 32)) = true := by
    decide +kernel
  obtain ⟨S, hrun, hfit⟩ := (Option.any_eq_true _ _).mp hall
  obtain ⟨h₁, h₂, h₃, h₄, h₅, h₆, h₇, h₈, h₉, h₁₀, h₁₁⟩ := of_decide_eq_true hfit
  obtain ⟨S', hread, hfaithful⟩ := faithful_read_write hrun ⟨h₁, h₂, h₃, h₄, h₅, h₆, h₇, h₈, h₉, h₁₀, h₁₁⟩
    (reads_word StreamError.eof)
  exact ⟨S, S', hrun, hread, hfaithful⟩

end ObjectTable

end OpenRoad.Db
