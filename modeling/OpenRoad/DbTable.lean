import Mathlib.Logic.Function.Basic
import Mathlib.Data.Nat.Bitwise

/-!
`dbTable`: objects of one type, kept in pages of `2 ^ pageShift` slots. An id is a page number and an
offset; id `0` is null, so the first slot of the first page is never handed out. Unused slots hold the
links of the free list. A failed `assert` or `ZASSERT` is `none`.
-/

namespace OpenRoad.Db

/-- One slot of a page: the `DB_ALLOC_BIT` of its `_oid`, and the links of a `_dbFreeObject`. -/
structure DbSlot where
  alloc : Bool
  next : Nat
  prev : Nat
  deriving DecidableEq

structure DbTablePage where
  pageAddr : Nat
  alloccnt : Nat
  objects : Nat → DbSlot

structure DbTable where
  /-- bit-mask to get page-offset -/
  pageMask : Nat
  /-- number of bits to shift to determine page-no -/
  pageShift : Nat
  /-- largest id which has been allocated -/
  topIdx : Nat
  /-- smallest id which has been allocated -/
  bottomIdx : Nat
  /-- high-water mark of page-table -/
  pageCnt : Nat
  /-- length of the page table -/
  pageTblSize : Nat
  /-- number of objects allocated -/
  allocCnt : Nat
  /-- objects on freelist -/
  freeList : Nat
  pages : Nat → DbTablePage

/-- A slot of a zeroed page. -/
def DbSlot.zero : DbSlot := ⟨false, 0, 0⟩

/-- A page as `malloc` and `memset` leave it, at the address of page `pageId`. -/
def DbTablePage.zero (pageAddr : Nat) : DbTablePage := ⟨pageAddr, 0, fun _ => DbSlot.zero⟩

def DbTablePage.validPage (page : DbTablePage) : Bool := page.alloccnt != 0

namespace DbTable

/-- The constructor, for a page size of `2 ^ pageShift`. -/
def init (pageShift : Nat) : DbTable where
  pageMask := 2 ^ pageShift - 1
  pageShift := pageShift
  topIdx := 0
  bottomIdx := 0
  pageCnt := 0
  pageTblSize := 0
  allocCnt := 0
  freeList := 0
  pages := fun _ => DbTablePage.zero 0

def pageSize (T : DbTable) : Nat := T.pageMask + 1

/-- The number of objects allocated. -/
def size (T : DbTable) : Nat := T.allocCnt

def slot (T : DbTable) (id : Nat) : DbSlot :=
  (T.pages (id >>> T.pageShift)).objects (id &&& T.pageMask)

def setSlot (T : DbTable) (id : Nat) (o : DbSlot) : DbTable :=
  let page := T.pages (id >>> T.pageShift)
  { T with
    pages := Function.update T.pages (id >>> T.pageShift)
      { page with objects := Function.update page.objects (id &&& T.pageMask) o } }

def setAlloccnt (T : DbTable) (pageId n : Nat) : DbTable :=
  { T with pages := Function.update T.pages pageId { T.pages pageId with alloccnt := n } }

/-- The slot of an id on the free list. -/
def getFreeObj (T : DbTable) (id : Nat) : Option DbSlot :=
  if id ≠ 0 ∧ id >>> T.pageShift < T.pageCnt ∧ (T.slot id).alloc = false then some (T.slot id)
  else none

def validId (T : DbTable) (id : Nat) : Bool :=
  id ≠ 0 ∧ id >>> T.pageShift < T.pageCnt ∧ (T.slot id).alloc = true

/-- Put the object of this id in front of the free list. -/
def pushQ (T : DbTable) (id : Nat) : Option DbTable :=
  let T := T.setSlot id { T.slot id with prev := 0, next := T.freeList }
  if T.freeList ≠ 0 then do
    let head ← T.getFreeObj T.freeList
    let T := T.setSlot T.freeList { head with prev := id }
    some { T with freeList := id }
  else some { T with freeList := id }

/-- Take the first object off the free list. -/
def popQ (T : DbTable) : Option (Nat × DbTable) := do
  let e ← T.getFreeObj T.freeList
  let id := T.freeList
  let T := { T with freeList := e.next }
  if T.freeList ≠ 0 then
    let head ← T.getFreeObj T.freeList
    some (id, T.setSlot T.freeList { head with prev := 0 })
  else some (id, T)

/-- The id of the object at an offset of a page, as `getOID` computes it. -/
def getOID (T : DbTable) (pageId offset : Nat) : Nat := (pageId <<< T.pageShift) ||| offset

/-- Put the offsets below `n` of a page on the free list, the highest first; the zero object of the
first page is not linked. -/
def linkPage (T : DbTable) (pageId : Nat) : Nat → Option DbTable
  | 0 => some T
  | t + 1 =>
      if pageId = 0 ∧ t = 0 then linkPage T pageId t
      else (T.pushQ (T.getOID pageId t)).bind fun T => linkPage T pageId t

/-- The length of the page table when one more page is to be entered. -/
def grownTblSize (T : DbTable) : Nat :=
  if T.pageTblSize = 0 then 1
  else if T.pageTblSize = T.pageCnt then T.pageTblSize * 2
  else T.pageTblSize

/-- Allocate a page; its objects are put on the list in reverse order, so they can be removed in
low-to-high order. -/
def newPage (T : DbTable) : Option DbTable :=
  let pageId := T.pageCnt
  let T := { T with
    pageTblSize := T.grownTblSize
    pageCnt := T.pageCnt + 1
    pages := Function.update T.pages pageId (DbTablePage.zero (pageId <<< T.pageShift)) }
  T.linkPage pageId T.pageSize

/-- Construct an object in the slot of this id and count it in its page. -/
def useSlot (T : DbTable) (id : Nat) : DbTable :=
  -- the constructor of the object overwrites the links
  let T := T.setSlot id { DbSlot.zero with alloc := true }
  let pageId := id >>> T.pageShift
  let T := T.setAlloccnt pageId ((T.pages pageId).alloccnt + 1)
  let T := if id > T.topIdx then { T with topIdx := id } else T
  if T.bottomIdx = 0 ∨ id < T.bottomIdx then { T with bottomIdx := id } else T

/-- The table at the start of `create`, which counts the new object first. -/
def counting (T : DbTable) : DbTable := { T with allocCnt := T.allocCnt + 1 }

/-- A page is allocated when the free list is empty. -/
def fillFreeList (T : DbTable) : Option DbTable := if T.freeList = 0 then T.newPage else some T

/-- The id of the new object and the table that holds it. -/
def create (T : DbTable) : Option (Nat × DbTable) := do
  let T ← T.counting.fillFreeList
  let r ← T.popQ
  some (r.1, r.2.useSlot r.1)

/-- The first allocated offset from `offset` on, among the next `n`. -/
def scanUp (objects : Nat → DbSlot) (offset : Nat) : Nat → Option Nat
  | 0 => none
  | n + 1 => if (objects offset).alloc then some offset else scanUp objects (offset + 1) n

/-- The last allocated offset below `n`. -/
def scanDown (objects : Nat → DbSlot) : Nat → Option Nat
  | 0 => none
  | n + 1 => if (objects n).alloc then some n else scanDown objects n

/-- The first page with an allocated object from `pageId` on, among the next `n`. -/
def nextValidPage (T : DbTable) (pageId : Nat) : Nat → Option Nat
  | 0 => none
  | n + 1 => if (T.pages pageId).validPage then some pageId else T.nextValidPage (pageId + 1) n

/-- The last page with an allocated object below `n`. -/
def prevValidPage (T : DbTable) : Nat → Option Nat
  | 0 => none
  | n + 1 => if (T.pages n).validPage then some n else T.prevValidPage n

/-- Find the new `bottomIdx`, the old one having been destroyed. -/
def findBottom (T : DbTable) : Option DbTable :=
  if T.allocCnt = 0 then some { T with bottomIdx := 0 }
  else
    let pageId := T.bottomIdx >>> T.pageShift
    if (T.pages pageId).validPage then do
      let start := (T.bottomIdx &&& T.pageMask) + 1
      let offset ← scanUp (T.pages pageId).objects start (T.pageSize - start)
      some { T with bottomIdx := (pageId <<< T.pageShift) + offset }
    else do
      let pageId ← T.nextValidPage (pageId + 1) (T.pageCnt - (pageId + 1))
      let offset ← scanUp (T.pages pageId).objects 0 T.pageSize
      some { T with bottomIdx := (pageId <<< T.pageShift) + offset }

/-- Find the new `topIdx`, the old one having been destroyed. -/
def findTop (T : DbTable) : Option DbTable :=
  if T.allocCnt = 0 then some { T with topIdx := 0 }
  else
    let pageId := T.topIdx >>> T.pageShift
    if (T.pages pageId).validPage then do
      let offset ← scanDown (T.pages pageId).objects (T.topIdx &&& T.pageMask)
      some { T with topIdx := (pageId <<< T.pageShift) + offset }
    else do
      let pageId ← T.prevValidPage pageId
      let offset ← scanDown (T.pages pageId).objects T.pageSize
      some { T with topIdx := (pageId <<< T.pageShift) + offset }

/-- Mark the slot of this id unused and count it out of the table and its page. -/
def freeSlot (T : DbTable) (id : Nat) : DbTable :=
  let T := { T with allocCnt := T.allocCnt - 1 }
  let pageId := id >>> T.pageShift
  let T := T.setAlloccnt pageId ((T.pages pageId).alloccnt - 1)
  T.setSlot id { T.slot id with alloc := false }

def dropBottom (T : DbTable) (id : Nat) : Option DbTable :=
  if id = T.bottomIdx then T.findBottom else some T

def dropTop (T : DbTable) (id : Nat) : Option DbTable :=
  if id = T.topIdx then T.findTop else some T

/-- Destroy the object of this id. -/
def destroy (T : DbTable) (id : Nat) : Option DbTable :=
  if T.validId id then do
    let T ← (T.freeSlot id).pushQ id
    let T ← T.dropBottom id
    T.dropTop id
  else none

/-! ### `dbIterator` interface -/

def beginId (T : DbTable) : Nat := T.bottomIdx

/-- The first allocated id on the pages from `pageId` on, among the next `n`; `0` if there is none. -/
def nextOnPages (T : DbTable) (pageId : Nat) : Nat → Nat
  | 0 => 0
  | n + 1 =>
      if (T.pages pageId).validPage then
        match scanUp (T.pages pageId).objects 0 T.pageSize with
        | some offset => (pageId <<< T.pageShift) + offset
        | none => T.nextOnPages (pageId + 1) n
      else T.nextOnPages (pageId + 1) n

/-- The id after `id` in the enumeration; `0` at its end. -/
def nextId (T : DbTable) (id : Nat) : Nat :=
  let id := id + 1
  if id > T.topIdx then 0
  else
    let pageId := id >>> T.pageShift
    let offset := id &&& T.pageMask
    match scanUp (T.pages pageId).objects offset (T.pageSize - offset) with
    | some offset => (pageId <<< T.pageShift) + offset
    | none => T.nextOnPages (pageId + 1) (T.pageCnt - (pageId + 1))

end DbTable

/-! ### Operation sequences -/

/-- The two operations that change which ids are in use. -/
inductive TableOp where
  | create
  | destroy (id : Nat)
  deriving DecidableEq

/-- What an operation did: the id it handed out, or the id it took back. -/
inductive TableEvent where
  | created (id : Nat)
  | destroyed (id : Nat)
  deriving DecidableEq

namespace DbTable

def perform (T : DbTable) : TableOp → Option (TableEvent × DbTable)
  | .create => T.create.map fun r => (.created r.1, r.2)
  | .destroy id => (T.destroy id).map fun T => (.destroyed id, T)

/-- One operation of a sequence. -/
def step (T : DbTable) (op : TableOp) : Option DbTable := (T.perform op).map Prod.snd

end DbTable

end OpenRoad.Db
