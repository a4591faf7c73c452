import OpenRoad.Run
import OpenRoad.ThreadedQueue
import Mathlib.Data.Nat.Bitwise
import Mathlib.Logic.Function.Basic
import Mathlib.Tactic.Common

/-!
`dbPagedVector`: cells on pages of one size, and chunks of cells that are handed out and freed. Freed
chunks wait in a queue that is threaded through their first cells. An index is an `unsigned int`, the
head of the queue an `int` with the same bits; an access beside the pages is `none`.
-/

namespace OpenRoad.Db

open Run ThreadedQueue

/-- A cell that can also hold an index. -/
class IndexCell (T : Type*) where
  asUint : T → Nat
  withUint : T → Nat → T
  asUint_withUint : ∀ cell n, n < 2 ^ 32 → asUint (withUint cell n) = n

/-- A `float` by its bits. -/
instance : IndexCell Nat := ⟨id, fun _ n => n, fun _ _ _ => rfl⟩

/-- The bits of `-1`. -/
def noIdx : Nat := 2 ^ 32 - 1

structure DbPagedVector (T : Type*) where
  /-- page_shift = log2(page_size) -/
  pageShift : Nat
  pageCnt : Nat := 0
  pageTblSize : Nat := 0
  nextIdx : Nat := 0
  freedIdxHead : Nat := noIdx
  freedIdxTail : Nat := 0
  /-- What is in the memory of a page before a cell is written is anything. -/
  pages : Nat → Nat → T

/-- `(float) n`: the nearest number of twenty-four bits, the even one between two. -/
def floatOf (n : Nat) : Nat :=
  let unit := 2 ^ (n.log2 - 23)
  let low := n / unit
  let rest := n % unit
  if 2 * rest < unit ∨ 2 * rest = unit ∧ low % 2 = 0 then low * unit else (low + 1) * unit

namespace DbPagedVector

variable {T : Type*} (v : DbPagedVector T)

def pageSize : Nat := 2 ^ v.pageShift

def page (id : Nat) : Nat := (id &&& (2 ^ 32 - v.pageSize)) >>> v.pageShift

def offset (id : Nat) : Nat := id &&& (v.pageSize - 1)

/-- `_pages[page][offset]`. -/
def contents (id : Nat) : T := v.pages (v.page id) (v.offset id)

def put (id : Nat) (item : T) : DbPagedVector T :=
  { v with
    pages := Function.update v.pages (v.page id)
      (Function.update (v.pages (v.page id)) (v.offset id) item) }

def readCell (id : Nat) : Option T :=
  if v.page id < v.pageCnt then some (v.contents id) else none

def writeCell (id : Nat) (item : T) : Option (DbPagedVector T) :=
  if v.page id < v.pageCnt then some (v.put id item) else none

/-- The pages are copied into the new table. -/
def resizePageTbl : Option (DbPagedVector T) :=
  let size := if v.pageTblSize = 1 then 2
    else (v.pageTblSize + floatOf v.pageTblSize / 2) % 2 ^ 32
  if v.pageTblSize ≤ size then some { v with pageTblSize := size } else none

def newPage : Option (DbPagedVector T) := do
  let v ← if v.pageTblSize = 0 then some { v with pageTblSize := 1 }
    else if v.pageTblSize = v.pageCnt then v.resizePageTbl
    else some v
  if v.pageCnt < v.pageTblSize then some { v with pageCnt := v.pageCnt + 1 } else none

def pushBack (item : T) : Option (DbPagedVector T) := do
  let w ← if v.page v.nextIdx = v.pageCnt then v.newPage else some v
  { w with nextIdx := (v.nextIdx + 1) % 2 ^ 32 }.writeCell v.nextIdx item

variable [IndexCell T]

/-- The index in the first cell of a freed chunk. -/
def link (id : Nat) : Nat := IndexCell.asUint (v.contents id)

/-- Where the chunk is: behind the last cell, or the first one that waits. -/
def takeIdx (chunkSize : Nat) : Option (Nat × DbPagedVector T) :=
  if v.freedIdxHead = noIdx then do
    let w := { v with nextIdx := (v.nextIdx + chunkSize) % 2 ^ 32 }
    let w ← if v.page ((w.nextIdx + (2 ^ 32 - 1)) % 2 ^ 32) = w.pageCnt then w.newPage else some w
    some (v.nextIdx, w)
  else if v.freedIdxHead = v.freedIdxTail then
    some (v.freedIdxHead, { v with freedIdxHead := noIdx })
  else do
    let cell ← v.readCell v.freedIdxHead
    some (v.freedIdxHead, { v with freedIdxHead := IndexCell.asUint cell })

def getIdx (chunkSize : Nat) (ival : T) : Option (Nat × DbPagedVector T) := do
  let (idx, w) ← v.takeIdx chunkSize
  let w ← run (fun w dd => w.writeCell ((idx + dd) % 2 ^ 32) ival) w (List.range chunkSize)
  some (idx, w)

def freeIdx (idx : Nat) : Option (DbPagedVector T) :=
  if v.freedIdxHead = noIdx then some { v with freedIdxHead := idx, freedIdxTail := idx }
  else do
    let cell ← v.readCell v.freedIdxTail
    let w ← v.writeCell v.freedIdxTail (IndexCell.withUint cell idx)
    some { w with freedIdxTail := idx }

end DbPagedVector

/-! ### Clients -/

/-- A vector with the chunks that are in use and those that were freed since, by their first
indices. -/
structure ChunkClient (T : Type*) where
  vector : DbPagedVector T
  inUse : List Nat := []
  waiting : List Nat := []

inductive ChunkOp (T : Type*) where
  | getIdx (ival : T)
  | freeIdx (idx : Nat)
  | pushBack (item : T)
  | write (id : Nat) (item : T)

namespace ChunkClient

variable {T : Type*} [IndexCell T] (chunkSize : Nat) (s : ChunkClient T)

def perform : ChunkOp T → Option (ChunkClient T)
  | .getIdx ival => (s.vector.getIdx chunkSize ival).map fun r =>
      { vector := r.2, inUse := r.1 :: s.inUse, waiting := s.waiting.erase r.1 }
  | .freeIdx idx => (s.vector.freeIdx idx).map fun v =>
      { vector := v, inUse := s.inUse.erase idx, waiting := s.waiting ++ [idx] }
  | .pushBack item => (s.vector.pushBack item).map fun v => { s with vector := v }
  | .write id item => (s.vector.writeCell id item).map fun v => { s with vector := v }

omit [IndexCell T] in
/-- A chunk is freed, and a cell of a chunk written, while the chunk is in use. -/
def Permitted : ChunkOp T → Prop
  | .freeIdx idx => idx ∈ s.inUse
  | .write id _ => ∃ idx ∈ s.inUse, idx ≤ id ∧ id < idx + chunkSize
  | _ => True

/-- Where the vector grows, the indices stay those of an `unsigned int`, and the table of the pages
can grow by half. -/
def Fits : ChunkOp T → Prop
  | .getIdx _ => s.vector.freedIdxHead = noIdx →
      s.vector.nextIdx + chunkSize < 2 ^ 32 ∧ s.vector.pageCnt < 2 ^ 31
  | .pushBack _ => s.vector.nextIdx + 1 < 2 ^ 32 ∧ s.vector.pageCnt < 2 ^ 31
  | _ => True

/-- Every operation is permitted and fits when it is performed. -/
def Orderly (ops : List (ChunkOp T)) : Prop :=
  Along (perform chunkSize) (fun s op => s.Permitted chunkSize op ∧ s.Fits chunkSize op) s ops

def InChunk (idx id : Nat) : Prop := idx ≤ id ∧ id < idx + chunkSize

/-- No cell is in two chunks, all cells of a chunk in use are on pages, and the chunk that waits
longest is the next to be handed out. -/
structure Sound : Prop where
  disjoint : (s.inUse ++ s.waiting).Pairwise fun i j =>
    ∀ id, ¬(InChunk chunkSize i id ∧ InChunk chunkSize j id)
  allocated : ∀ i ∈ s.inUse, ∀ id, InChunk chunkSize i id → s.vector.page id < s.vector.pageCnt
  reused : ∀ i rest ival, s.waiting = i :: rest →
    ∃ v, s.vector.getIdx chunkSize ival = some (i, v)

end ChunkClient

/-! ### Pages and cells -/

theorem le_floatOf {n : Nat} (hn : 2 ≤ n) : 2 ≤ floatOf n ∧ floatOf n ≤ 2 * n := by
  have hunit : 2 ^ (n.log2 - 23) ≤ n :=
    (Nat.pow_le_pow_right (by decide) (Nat.sub_le _ _)).trans (Nat.log2_self_le (by omega))
  have hpos : 0 < 2 ^ (n.log2 - 23) := Nat.two_pow_pos _
  unfold floatOf
  generalize 2 ^ (n.log2 - 23) = unit at hunit hpos
  have hlow : 1 ≤ n / unit := (Nat.one_le_div_iff hpos).mpr hunit
  have hle : n / unit * unit ≤ n := Nat.div_mul_le_self n unit
  have htwo : 2 ≤ n / unit * unit := by
    rcases Nat.eq_or_lt_of_le hpos with rfl | hbig
    · simpa using hn
    · exact (Nat.succ_le_of_lt hbig).trans (Nat.le_mul_of_pos_left unit hlow)
  have hsucc : (n / unit + 1) * unit = n / unit * unit + unit := Nat.succ_mul _ _
  dsimp only
  split <;> omega

namespace DbPagedVector

variable {T : Type*} {v w : DbPagedVector T} {id id' n : Nat}

theorem pageSize_pos (v : DbPagedVector T) : 0 < v.pageSize := Nat.two_pow_pos _

theorem page_eq (hshift : v.pageShift < 32) (hid : id < 2 ^ 32) : v.page id = id / v.pageSize := by
  have hpow : 2 ^ 32 = 2 ^ (32 - v.pageShift) * 2 ^ v.pageShift := by
    rw [← Nat.pow_add, Nat.sub_add_cancel hshift.le]
  have hmask : (2 ^ 32 - v.pageSize) / 2 ^ v.pageShift = 2 ^ (32 - v.pageShift) - 1 := by
    rw [hpow, pageSize, ← Nat.sub_one_mul]
    exact Nat.mul_div_cancel _ (Nat.two_pow_pos _)
  have hlt : id / 2 ^ v.pageShift < 2 ^ (32 - v.pageShift) :=
    (Nat.div_lt_iff_lt_mul (Nat.two_pow_pos _)).mpr (hpow ▸ hid)
  rw [page, Nat.shiftRight_and_distrib, Nat.shiftRight_eq_div_pow, Nat.shiftRight_eq_div_pow, hmask,
    Nat.and_two_pow_sub_one_eq_mod, Nat.mod_eq_of_lt hlt, pageSize]

theorem offset_eq (v : DbPagedVector T) (id : Nat) : v.offset id = id % v.pageSize :=
  Nat.and_two_pow_sub_one_eq_mod id v.pageShift

theorem contents_put (hshift : v.pageShift < 32) (hid : id < 2 ^ 32) (hid' : id' < 2 ^ 32)
    (item : T) : (v.put id item).contents id' = if id' = id then item else v.contents id' := by
  show Function.update v.pages (v.page id) _ (v.page id') (v.offset id') = _
  split
  case isTrue heq => rw [heq, Function.update_self, Function.update_self]
  case isFalse hne =>
    by_cases hpage : v.page id' = v.page id
    · have hoffset : v.offset id' ≠ v.offset id := by
        intro heq
        rw [page_eq hshift hid, page_eq hshift hid'] at hpage
        rw [offset_eq, offset_eq] at heq
        apply hne
        rw [← Nat.div_add_mod id' v.pageSize, hpage, heq, Nat.div_add_mod]
      rw [hpage, Function.update_self, Function.update_of_ne hoffset, ← hpage]
      rfl
    · rw [Function.update_of_ne hpage]
      rfl

theorem newPage_spec (htable : v.pageCnt ≤ v.pageTblSize) (hcnt : v.pageCnt < 2 ^ 31) :
    ∃ size, v.newPage = some { v with pageTblSize := size, pageCnt := v.pageCnt + 1 } ∧
      v.pageCnt + 1 ≤ size := by
  by_cases hzero : v.pageTblSize = 0
  · refine ⟨1, ?_, by omega⟩
    have hpageCnt : v.pageCnt < 1 := by omega
    simp [newPage, hzero, hpageCnt]
  by_cases hfull : v.pageTblSize = v.pageCnt
  · -- the table grows by half, at least by one
    have hsize : ∃ size, v.resizePageTbl = some { v with pageTblSize := size } ∧
        v.pageCnt < size := by
      by_cases hone : v.pageTblSize = 1
      · exact ⟨2, by simp [resizePageTbl, hone], by omega⟩
      · obtain ⟨hlow, hhigh⟩ := le_floatOf (n := v.pageTblSize) (by omega)
        have hmod : (v.pageTblSize + floatOf v.pageTblSize / 2) % 2 ^ 32 =
            v.pageTblSize + floatOf v.pageTblSize / 2 := Nat.mod_eq_of_lt (by omega)
        refine ⟨v.pageTblSize + floatOf v.pageTblSize / 2, ?_, by omega⟩
        simp only [resizePageTbl, hone, if_false, hmod, Nat.le_add_right, if_true]
    obtain ⟨size, hresize, hlt⟩ := hsize
    refine ⟨size, ?_, hlt⟩
    simp only [newPage, hfull, if_true, hresize]
    rw [if_neg (by omega)]
    exact if_pos hlt
  · refine ⟨v.pageTblSize, ?_, by omega⟩
    have hlt : v.pageCnt < v.pageTblSize := by omega
    simp [newPage, hzero, hfull, hlt]

/-- There are as many pages as the cells need. -/
structure Booked (v : DbPagedVector T) : Prop where
  shift : v.pageShift < 32
  next_lt : v.nextIdx < 2 ^ 32
  covered : v.nextIdx ≤ v.pageCnt * v.pageSize
  tight : v.pageCnt * v.pageSize < v.nextIdx + v.pageSize
  table : v.pageCnt ≤ v.pageTblSize

namespace Booked

theorem page_lt (h : v.Booked) (hid : id < v.nextIdx) : v.page id < v.pageCnt := by
  rw [page_eq h.shift (hid.trans h.next_lt), Nat.div_lt_iff_lt_mul v.pageSize_pos]
  exact hid.trans_le h.covered

/-- The last of the new cells is on the page behind the last one. -/
theorem grow_new {size : Nat} (h : v.Booked) (hn : 0 < n) (hfit : v.nextIdx + n < 2 ^ 32)
    (hpage : v.page (v.nextIdx + n - 1) = v.pageCnt) (hsize : v.pageCnt + 1 ≤ size) :
    Booked { v with nextIdx := v.nextIdx + n, pageTblSize := size, pageCnt := v.pageCnt + 1 } := by
  have hpos := v.pageSize_pos
  rw [page_eq h.shift (by omega)] at hpage
  have hlow : v.pageCnt * v.pageSize ≤ v.nextIdx + n - 1 :=
    (Nat.le_div_iff_mul_le hpos).mp hpage.ge
  have hhigh : v.nextIdx + n - 1 < (v.pageCnt + 1) * v.pageSize :=
    (Nat.div_lt_iff_lt_mul hpos).mp (hpage ▸ Nat.lt_succ_self _)
  have hsucc : (v.pageCnt + 1) * v.pageSize = v.pageCnt * v.pageSize + v.pageSize :=
    Nat.succ_mul _ _
  refine ⟨h.shift, hfit, ?_, ?_, hsize⟩
  · show v.nextIdx + n ≤ (v.pageCnt + 1) * v.pageSize
    omega
  · show (v.pageCnt + 1) * v.pageSize < v.nextIdx + n + v.pageSize
    omega

/-- No more cells than a page has are on the pages there are, unless the last of them is not. -/
theorem grow_old (h : v.Booked) (hn : 0 < n) (hle : n ≤ v.pageSize)
    (hfit : v.nextIdx + n < 2 ^ 32) (hpage : v.page (v.nextIdx + n - 1) ≠ v.pageCnt) :
    Booked { v with nextIdx := v.nextIdx + n } := by
  have hpos := v.pageSize_pos
  have hcovered := h.covered
  have htight := h.tight
  rw [page_eq h.shift (by omega)] at hpage
  have hsucc : (v.pageCnt + 1) * v.pageSize = v.pageCnt * v.pageSize + v.pageSize :=
    Nat.succ_mul _ _
  have hlt : (v.nextIdx + n - 1) / v.pageSize < v.pageCnt + 1 :=
    (Nat.div_lt_iff_lt_mul hpos).mpr (by omega)
  have hlast : v.nextIdx + n - 1 < v.pageCnt * v.pageSize :=
    (Nat.div_lt_iff_lt_mul hpos).mp (by omega)
  refine ⟨h.shift, hfit, ?_, ?_, h.table⟩
  · show v.nextIdx + n ≤ v.pageCnt * v.pageSize
    omega
  · show v.pageCnt * v.pageSize < v.nextIdx + n + v.pageSize
    omega

theorem readCell (h : v.Booked) (hid : id < v.nextIdx) : v.readCell id = some (v.contents id) :=
  if_pos (h.page_lt hid)

theorem writeCell (h : v.Booked) (hid : id < v.nextIdx) (item : T) :
    v.writeCell id item = some (v.put id item) := if_pos (h.page_lt hid)

/-- Filling a chunk changes its own cells only. -/
theorem fill {idx chunkSize : Nat} (h : v.Booked) (hidx : idx + chunkSize ≤ v.nextIdx) (ival : T) :
    ∃ pages, run (fun w dd => w.writeCell ((idx + dd) % 2 ^ 32) ival) v (List.range chunkSize) =
        some { v with pages := pages } ∧
      ∀ id < 2 ^ 32, id < idx ∨ idx + chunkSize ≤ id →
        contents { v with pages := pages } id = v.contents id := by
  have hloop := run_range'_total (f := fun w dd => w.writeCell ((idx + dd) % 2 ^ 32) ival)
    (P := fun _ w => ∃ pages, w = { v with pages := pages } ∧
      ∀ id < 2 ^ 32, id < idx ∨ idx + chunkSize ≤ id → contents w id = v.contents id)
    0 chunkSize ?_ v ⟨v.pages, rfl, fun _ _ _ => rfl⟩
  · obtain ⟨w, hrun, pages, rfl, hsame⟩ := hloop
    refine ⟨pages, ?_, hsame⟩
    rw [List.range_eq_range']
    exact hrun
  · rintro k w - hk ⟨pages, rfl, hsame⟩
    have hnext := h.next_lt
    rw [Nat.zero_add] at hk
    have hmod : (idx + k) % 2 ^ 32 = idx + k := Nat.mod_eq_of_lt (by omega)
    have hbooked : Booked { v with pages := pages } := ⟨h.1, h.2, h.3, h.4, h.5⟩
    refine ⟨put { v with pages := pages } (idx + k) ival, ?_, _, rfl, ?_⟩
    · rw [hmod]
      have hlt : idx + k < v.nextIdx := by omega
      exact hbooked.writeCell hlt ival
    · intro id hid hout
      refine Eq.trans ?_ (hsame id hid hout)
      refine (contents_put (v := { v with pages := pages }) h.shift (by omega) hid ival).trans
        (if_neg ?_)
      omega

end Booked

end DbPagedVector

namespace ChunkClient

variable {T : Type*} [IndexCell T] {chunkSize : Nat} {s : ChunkClient T}

/-! ### The chunks -/

def Apart (chunkSize i j : Nat) : Prop := i + chunkSize ≤ j ∨ j + chunkSize ≤ i

theorem Apart.symm {i j : Nat} (h : Apart chunkSize i j) : Apart chunkSize j i := Or.symm h

variable (chunkSize s) in
/-- The chunks are no larger than a page, apart and below the next index, and those that wait are
threaded. -/
structure Inv : Prop where
  booked : s.vector.Booked
  small : chunkSize ≤ s.vector.pageSize
  apart : (s.inUse ++ s.waiting).Pairwise (Apart chunkSize)
  below : ∀ i ∈ s.inUse ++ s.waiting, i + chunkSize ≤ s.vector.nextIdx
  threaded : Threaded noIdx s.vector.link s.vector.freedIdxHead s.vector.freedIdxTail s.waiting

namespace Inv

variable (hinv : s.Inv chunkSize)

include hinv

theorem waiting_lt (hchunk : 0 < chunkSize) {i : Nat} (hi : i ∈ s.waiting) :
    i < s.vector.nextIdx := by
  have hbelow := hinv.below i (List.mem_append_right s.inUse hi)
  omega

theorem head_eq_iff (hchunk : 0 < chunkSize) :
    s.vector.freedIdxHead = noIdx ↔ s.waiting = [] := by
  refine hinv.threaded.head_eq_null_iff fun i hi => ?_
  have hlt := hinv.waiting_lt hchunk hi
  have hnext := hinv.booked.next_lt
  unfold noIdx
  omega

theorem nodup (hchunk : 0 < chunkSize) : s.waiting.Nodup := by
  refine (List.pairwise_append.mp hinv.apart).2.1.imp ?_
  rintro i j hapart rfl
  unfold Apart at hapart
  omega

end Inv

theorem threaded_congr {v w : DbPagedVector T} {head tail : Nat} {waiting : List Nat}
    (hsame : ∀ i ∈ waiting, w.contents i = v.contents i)
    (h : Threaded noIdx v.link head tail waiting) : Threaded noIdx w.link head tail waiting :=
  h.congr fun i hi => congrArg IndexCell.asUint (hsame i hi)

/-- The client after a chunk was handed out: the cells of the chunk are filled. -/
theorem Inv.handOut {v : DbPagedVector T} {idx head : Nat} {waiting : List Nat}
    (hbooked : v.Booked) (hsmall : chunkSize ≤ v.pageSize)
    (hapart : (idx :: s.inUse ++ waiting).Pairwise (Apart chunkSize))
    (hbelow : ∀ i ∈ idx :: s.inUse ++ waiting, i + chunkSize ≤ v.nextIdx)
    (hthreaded : Threaded noIdx v.link head v.freedIdxTail waiting) (hhead : v.freedIdxHead = head)
    (ival : T) :
    ∃ w, run (fun w dd => w.writeCell ((idx + dd) % 2 ^ 32) ival) v (List.range chunkSize) =
        some w ∧
      Inv chunkSize { vector := w, inUse := idx :: s.inUse, waiting := waiting } := by
  obtain ⟨pages, hrun, hsame⟩ := hbooked.fill (hbelow idx List.mem_cons_self) ival
  have hnext := hbooked.next_lt
  refine ⟨{ v with pages := pages }, hrun, ⟨hbooked.1, hbooked.2, hbooked.3, hbooked.4, hbooked.5⟩,
    hsmall, hapart, hbelow, ?_⟩
  rw [← hhead] at hthreaded
  refine threaded_congr (v := v) (fun i hi => ?_) hthreaded
  have hmem : i ∈ s.inUse ++ waiting := List.mem_append_right s.inUse hi
  have hlow := hbelow i (List.mem_cons_of_mem idx hmem)
  have happ : Apart chunkSize idx i := (List.pairwise_cons.mp hapart).1 i hmem
  unfold Apart at happ
  exact hsame i (by omega) (by omega)

/-- With no chunk waiting, the new one lies behind all cells. -/
theorem Inv.getIdx_new (hinv : s.Inv chunkSize) (hchunk : 0 < chunkSize) (hnil : s.waiting = [])
    (hnext : s.vector.nextIdx + chunkSize < 2 ^ 32) (hcnt : s.vector.pageCnt < 2 ^ 31) (ival : T) :
    ∃ w, s.vector.getIdx chunkSize ival = some (s.vector.nextIdx, w) ∧
      Inv chunkSize { vector := w, inUse := s.vector.nextIdx :: s.inUse, waiting := [] } := by
  obtain ⟨v, inUse, waiting⟩ := s
  obtain rfl : waiting = [] := hnil
  have hhead : v.freedIdxHead = noIdx := (hinv.head_eq_iff hchunk).mpr rfl
  -- the vector after its growth
  have hgrow : ∃ u, v.takeIdx chunkSize = some (v.nextIdx, u) ∧ u.Booked ∧
      u.pageSize = v.pageSize ∧ u.nextIdx = v.nextIdx + chunkSize ∧ u.freedIdxHead = noIdx := by
    have hmod : (v.nextIdx + chunkSize) % 2 ^ 32 = v.nextIdx + chunkSize := Nat.mod_eq_of_lt hnext
    have hlast : (v.nextIdx + chunkSize + (2 ^ 32 - 1)) % 2 ^ 32 = v.nextIdx + chunkSize - 1 := by
      omega
    simp only [DbPagedVector.takeIdx, hhead, if_true, hmod, hlast]
    by_cases hpage : v.page (v.nextIdx + chunkSize - 1) = v.pageCnt
    · obtain ⟨size, hnew, hsize⟩ := DbPagedVector.newPage_spec
        (v := { v with nextIdx := v.nextIdx + chunkSize }) hinv.booked.table hcnt
      refine ⟨_, ?_, hinv.booked.grow_new hchunk hnext hpage hsize, rfl, rfl, hhead⟩
      rw [if_pos hpage, ← hhead]
      exact congrArg (fun o => o.bind fun w => some (v.nextIdx, w)) hnew
    · refine ⟨_, ?_, hinv.booked.grow_old hchunk hinv.small hnext hpage, rfl, rfl, hhead⟩
      rw [if_neg hpage, ← hhead]
      rfl
  obtain ⟨u, htake, hbooked, hsize, hnextIdx, hnull⟩ := hgrow
  have hbelow : ∀ i ∈ v.nextIdx :: inUse ++ [], i + chunkSize ≤ u.nextIdx := by
    intro i hi
    rw [hnextIdx]
    rcases List.mem_cons.mp hi with rfl | hmem
    · exact le_rfl
    · exact (hinv.below i hmem).trans (Nat.le_add_right _ _)
  have hapart : (v.nextIdx :: inUse ++ []).Pairwise (Apart chunkSize) :=
    List.pairwise_cons.mpr ⟨fun i hi => Or.inr (hinv.below i hi), hinv.apart⟩
  obtain ⟨w, hrun, hw⟩ := Inv.handOut (s := ⟨v, inUse, []⟩) hbooked
    (hsize ▸ hinv.small) hapart hbelow rfl hnull ival
  refine ⟨w, ?_, hw⟩
  unfold DbPagedVector.getIdx
  rw [htake]
  exact congrArg (fun o => o.bind fun w => some (v.nextIdx, w)) hrun

/-- The chunk that waits longest is handed out. -/
theorem Inv.getIdx_waiting (hinv : s.Inv chunkSize) (hchunk : 0 < chunkSize) {idx : Nat}
    {rest : List Nat} (hwaiting : s.waiting = idx :: rest) (ival : T) :
    ∃ w, s.vector.getIdx chunkSize ival = some (idx, w) ∧
      Inv chunkSize { vector := w, inUse := idx :: s.inUse, waiting := rest } := by
  obtain ⟨v, inUse, waiting⟩ := s
  obtain rfl : waiting = idx :: rest := hwaiting
  have hne : v.freedIdxHead ≠ noIdx := fun heq =>
    absurd ((hinv.head_eq_iff hchunk).mp heq) (List.cons_ne_nil idx rest)
  have hhead : v.freedIdxHead = idx := hinv.threaded.1
  have hlt : idx < v.nextIdx := hinv.waiting_lt hchunk List.mem_cons_self
  have hend := hinv.threaded.2.eq_tail_iff (hinv.nodup hchunk)
  -- the vector after its head moved on
  have htake : ∃ head, v.takeIdx chunkSize = some (idx, { v with freedIdxHead := head }) ∧
      Threaded noIdx v.link head v.freedIdxTail rest := by
    unfold DbPagedVector.takeIdx
    rw [if_neg hne, hhead]
    cases rest with
    | nil => exact ⟨noIdx, if_pos (hend.mpr rfl), rfl⟩
    | cons next rest =>
        refine ⟨v.link idx, ?_, hhead ▸ hinv.threaded.pop⟩
        rw [if_neg fun heq => List.cons_ne_nil next rest (hend.mp heq), hinv.booked.readCell hlt]
        rfl
  obtain ⟨head, htake, hthreaded⟩ := htake
  have hperm : (idx :: inUse ++ rest).Perm (inUse ++ idx :: rest) := List.perm_middle.symm
  obtain ⟨w, hrun, hw⟩ := Inv.handOut (s := ⟨v, inUse, rest⟩) (v := { v with freedIdxHead := head })
    ⟨hinv.booked.1, hinv.booked.2, hinv.booked.3, hinv.booked.4, hinv.booked.5⟩ hinv.small
    ((hperm.pairwise_iff Apart.symm).mpr hinv.apart)
    (fun i hi => hinv.below i (hperm.mem_iff.mp hi)) hthreaded rfl ival
  refine ⟨w, ?_, hw⟩
  unfold DbPagedVector.getIdx
  rw [htake]
  exact congrArg (fun o => o.bind fun w => some (idx, w)) hrun

theorem Inv.freeIdx (hinv : s.Inv chunkSize) (hchunk : 0 < chunkSize) {idx : Nat}
    (hidx : idx ∈ s.inUse) :
    ∃ v, s.vector.freeIdx idx = some v ∧
      Inv chunkSize { vector := v, inUse := s.inUse.erase idx, waiting := s.waiting ++ [idx] } := by
  obtain ⟨v, inUse, waiting⟩ := s
  have hnext : v.nextIdx < 2 ^ 32 := hinv.booked.next_lt
  have hbelow : idx + chunkSize ≤ v.nextIdx := hinv.below idx (List.mem_append_left waiting hidx)
  have hperm : (inUse.erase idx ++ (waiting ++ [idx])).Perm (inUse ++ waiting) := by
    calc inUse.erase idx ++ (waiting ++ [idx])
        _ = inUse.erase idx ++ waiting ++ [idx] := (List.append_assoc _ _ _).symm
        List.Perm _ (idx :: (inUse.erase idx ++ waiting)) := List.perm_append_singleton _ _
        _ = idx :: inUse.erase idx ++ waiting := rfl
        List.Perm _ (inUse ++ waiting) := (List.perm_cons_erase hidx).symm.append_right waiting
  have hapart := (hperm.pairwise_iff Apart.symm).mpr hinv.apart
  have hbelow' : ∀ i ∈ inUse.erase idx ++ (waiting ++ [idx]), i + chunkSize ≤ v.nextIdx :=
    fun i hi => hinv.below i (hperm.mem_iff.mp hi)
  by_cases hnil : waiting = []
  · subst hnil
    refine ⟨{ v with freedIdxHead := idx, freedIdxTail := idx },
      if_pos ((hinv.head_eq_iff hchunk).mpr rfl),
      ⟨hinv.booked.1, hinv.booked.2, hinv.booked.3, hinv.booked.4, hinv.booked.5⟩, hinv.small, hapart,
      hbelow', Threaded.single noIdx _ idx⟩
  · have hne : v.freedIdxHead ≠ noIdx := fun heq => hnil ((hinv.head_eq_iff hchunk).mp heq)
    have htail : v.freedIdxTail < v.nextIdx :=
      hinv.waiting_lt hchunk (hinv.threaded.tail_mem hnil)
    let cell := IndexCell.withUint (v.contents v.freedIdxTail) idx
    have hcell : IndexCell.asUint cell = idx := IndexCell.asUint_withUint _ _ (by omega)
    refine ⟨{ v.put v.freedIdxTail cell with freedIdxTail := idx }, ?_,
      ⟨hinv.booked.1, hinv.booked.2, hinv.booked.3, hinv.booked.4, hinv.booked.5⟩, hinv.small, hapart,
      hbelow', ?_⟩
    · unfold DbPagedVector.freeIdx
      rw [if_neg hne, hinv.booked.readCell htail]
      exact congrArg (fun o => o.bind fun w => some { w with freedIdxTail := idx })
        (hinv.booked.writeCell htail cell)
    · -- the link of the last one is the only one that changes
      have hput : ∀ id < 2 ^ 32, DbPagedVector.link (v.put v.freedIdxTail cell) id =
          if id = v.freedIdxTail then idx else v.link id := by
        intro id hid
        unfold DbPagedVector.link
        rw [DbPagedVector.contents_put hinv.booked.shift (by omega) hid]
        split
        case isTrue => exact hcell
        case isFalse => rfl
      refine hinv.threaded.push hnil (hinv.nodup hchunk)
        ((hput v.freedIdxTail (by omega)).trans (if_pos rfl)) fun i hi hne => ?_
      have hlt : i < v.nextIdx := hinv.waiting_lt hchunk hi
      exact (hput i (by omega)).trans (if_neg hne)

/-- A cell that no waiting chunk has is written. -/
theorem Inv.put {v : DbPagedVector T} {id : Nat} (hinv : s.Inv chunkSize) (hbooked : v.Booked)
    (hsmall : chunkSize ≤ v.pageSize) (hnext : s.vector.nextIdx ≤ v.nextIdx) (hid : id < v.nextIdx) (hchunk : 0 < chunkSize)
    (hout : id ∉ s.waiting) (hkept : v.freedIdxHead = s.vector.freedIdxHead ∧
      v.freedIdxTail = s.vector.freedIdxTail ∧ v.contents = s.vector.contents) (item : T) :
    Inv chunkSize { s with vector := v.put id item } := by
  refine ⟨⟨hbooked.1, hbooked.2, hbooked.3, hbooked.4, hbooked.5⟩, hsmall, hinv.apart,
    fun i hi => (hinv.below i hi).trans hnext, ?_⟩
  have hthreaded := hinv.threaded
  rw [← hkept.1, ← hkept.2.1] at hthreaded
  refine threaded_congr (v := s.vector) (fun i hi => ?_) hthreaded
  have hlt := hinv.waiting_lt hchunk hi
  have hlim := hbooked.next_lt
  refine (DbPagedVector.contents_put hbooked.shift (by omega) (by omega) item).trans ?_
  rw [hkept.2.2]
  refine if_neg ?_
  rintro rfl
  exact hout hi

theorem Inv.pushBack (hinv : s.Inv chunkSize) (hchunk : 0 < chunkSize)
    (hnext : s.vector.nextIdx + 1 < 2 ^ 32) (hcnt : s.vector.pageCnt < 2 ^ 31) (item : T) :
    ∃ v, s.vector.pushBack item = some v ∧ Inv chunkSize { s with vector := v } := by
  have hmod : (s.vector.nextIdx + 1) % 2 ^ 32 = s.vector.nextIdx + 1 := Nat.mod_eq_of_lt hnext
  have hout : s.vector.nextIdx ∉ s.waiting := fun hmem =>
    Nat.lt_irrefl _ (hinv.waiting_lt hchunk hmem)
  -- the vector after its growth
  have hgrow : ∃ u : DbPagedVector T, u.Booked ∧ u.pageSize = s.vector.pageSize ∧
      u.nextIdx = s.vector.nextIdx + 1 ∧
      (u.freedIdxHead = s.vector.freedIdxHead ∧ u.freedIdxTail = s.vector.freedIdxTail ∧
        u.contents = s.vector.contents) ∧
      s.vector.pushBack item = u.writeCell s.vector.nextIdx item := by
    unfold DbPagedVector.pushBack
    rw [hmod]
    by_cases hpage : s.vector.page s.vector.nextIdx = s.vector.pageCnt
    · obtain ⟨size, hnew, hsize⟩ := DbPagedVector.newPage_spec hinv.booked.table hcnt
      refine ⟨_, hinv.booked.grow_new Nat.one_pos hnext hpage hsize, rfl, rfl, ⟨rfl, rfl, rfl⟩,
        ?_⟩
      rw [if_pos hpage, hnew]
      rfl
    · refine ⟨_, hinv.booked.grow_old Nat.one_pos s.vector.pageSize_pos hnext hpage, rfl,
        rfl, ⟨rfl, rfl, rfl⟩, ?_⟩
      rw [if_neg hpage]
      rfl
  obtain ⟨u, hbooked, hsize, hnextIdx, hkept, hpush⟩ := hgrow
  have hid : s.vector.nextIdx < u.nextIdx := hnextIdx ▸ Nat.lt_succ_self _
  refine ⟨u.put s.vector.nextIdx item, hpush.trans (hbooked.writeCell hid item), ?_⟩
  exact hinv.put hbooked (hsize ▸ hinv.small) hid.le hid hchunk hout hkept item

/-! ### Runs -/

theorem perform_total (hchunk : 0 < chunkSize) (hinv : s.Inv chunkSize) (op : ChunkOp T) (hpermitted : s.Permitted chunkSize op)
    (hfits : s.Fits chunkSize op) :
    ∃ t, s.perform chunkSize op = some t ∧ t.Inv chunkSize := by
  cases op with
  | getIdx ival =>
      cases hwaiting : s.waiting with
      | nil =>
          obtain ⟨hnext, hcnt⟩ := hfits ((hinv.head_eq_iff hchunk).mpr hwaiting)
          obtain ⟨w, hget, hw⟩ := hinv.getIdx_new hchunk hwaiting hnext hcnt ival
          exact ⟨_, congrArg (Option.map _) hget, by simpa only [hwaiting, List.erase_nil] using hw⟩
      | cons idx rest =>
          obtain ⟨w, hget, hw⟩ := hinv.getIdx_waiting hchunk hwaiting ival
          exact ⟨_, congrArg (Option.map _) hget, by
            simpa only [hwaiting, List.erase_cons_head] using hw⟩
  | freeIdx idx =>
      obtain ⟨v, hfree, hv⟩ := hinv.freeIdx hchunk hpermitted
      exact ⟨_, congrArg (Option.map _) hfree, hv⟩
  | pushBack item =>
      obtain ⟨v, hpush, hv⟩ := hinv.pushBack hchunk hfits.1 hfits.2 item
      exact ⟨_, congrArg (Option.map _) hpush, hv⟩
  | write id item =>
      obtain ⟨idx, hidx, hlow, hhigh⟩ := hpermitted
      have hbelow := hinv.below idx (List.mem_append_left s.waiting hidx)
      have hid : id < s.vector.nextIdx := hhigh.trans_le hbelow
      have hout : id ∉ s.waiting := by
        intro hmem
        have hapart := (List.pairwise_append.mp hinv.apart).2.2 idx hidx id hmem
        unfold Apart at hapart
        omega
      exact ⟨_, congrArg (Option.map _) (hinv.booked.writeCell hid item),
        hinv.put hinv.booked hinv.small le_rfl hid hchunk hout ⟨rfl, rfl, rfl⟩ item⟩

theorem Inv.sound (hinv : s.Inv chunkSize) (hchunk : 0 < chunkSize) : s.Sound chunkSize where
  disjoint := by
    refine hinv.apart.imp fun {i j} hapart id ⟨hi, hj⟩ => ?_
    unfold Apart at hapart
    unfold InChunk at hi hj
    omega
  allocated i hi id hid := by
    have hbelow := hinv.below i (List.mem_append_left s.waiting hi)
    exact hinv.booked.page_lt (hid.2.trans_le hbelow)
  reused i rest ival hwaiting := by
    obtain ⟨w, hget, -⟩ := hinv.getIdx_waiting hchunk hwaiting ival
    exact ⟨w, hget⟩

/-- A new vector. -/
def start (pageShift : Nat) (memory : Nat → Nat → T) : ChunkClient T where
  vector := { pageShift := pageShift, pages := memory }

theorem inv_start {pageShift : Nat} (hshift : pageShift < 32) (hle : chunkSize ≤ 2 ^ pageShift)
    (memory : Nat → Nat → T) : (start pageShift memory).Inv chunkSize where
  booked :=
    { shift := hshift
      next_lt := Nat.two_pow_pos 32
      covered := Nat.zero_le _
      tight := by
        show 0 * 2 ^ pageShift < 0 + 2 ^ pageShift
        rw [Nat.zero_mul, Nat.zero_add]
        exact Nat.two_pow_pos _
      table := le_rfl }
  small := hle
  apart := List.Pairwise.nil
  below i hi := absurd hi List.not_mem_nil
  threaded := rfl

/-- A first chunk larger than a page gets no page. -/
theorem getIdx_large {pageShift : Nat} (hshift : pageShift < 32) (hlt : 2 ^ pageShift < chunkSize)
    (hfit : chunkSize < 2 ^ 32) (memory : Nat → Nat → T) (ival : T) :
    (start pageShift memory).perform chunkSize (.getIdx ival) = none := by
  let v : DbPagedVector T := { pageShift := pageShift, pages := memory }
  have hpage : v.page (chunkSize - 1) ≠ 0 := by
    rw [DbPagedVector.page_eq hshift (by omega)]
    exact (Nat.div_pos (Nat.le_sub_one_of_lt hlt) (Nat.two_pow_pos _)).ne'
  have hpos : 0 < chunkSize := (Nat.zero_le _).trans_lt hlt
  have hmod : (0 + chunkSize) % 2 ^ 32 = chunkSize := by omega
  have hlast : (chunkSize + (2 ^ 32 - 1)) % 2 ^ 32 = chunkSize - 1 := by omega
  have htake : v.takeIdx chunkSize = some (0, { v with nextIdx := chunkSize }) := by
    simp only [DbPagedVector.takeIdx, v, if_true, hmod, hlast]
    rw [if_neg hpage]
    rfl
  have hget : v.getIdx chunkSize ival = none := by
    unfold DbPagedVector.getIdx
    rw [htake]
    obtain ⟨n, rfl⟩ : ∃ n, chunkSize = n + 1 := ⟨chunkSize - 1, by omega⟩
    rw [List.range_succ_eq_map]
    rfl
  exact congrArg (Option.map _) hget

/-- The chunks are handed out soundly in every run of a client that frees what it has, as long as the
indices fit, exactly when a chunk is no larger than a page. -/
theorem chunks_sound_iff {pageShift : Nat} (hshift : pageShift < 32) (hchunk : 0 < chunkSize)
    (hfit : chunkSize < 2 ^ 32) (memory : Nat → Nat → T) :
    (∀ ops, (start pageShift memory).Orderly chunkSize ops →
      ∃ s, run (perform chunkSize) (start pageShift memory) ops = some s ∧ s.Sound chunkSize) ↔
    chunkSize ≤ 2 ^ pageShift := by
  constructor
  · intro hall
    by_contra hlt
    have hnone := getIdx_large hshift (Nat.lt_of_not_le hlt) hfit memory (memory 0 0)
    obtain ⟨s, hrun, -⟩ := hall [.getIdx (memory 0 0)] ⟨⟨trivial, fun _ => ⟨by
      show 0 + chunkSize < 2 ^ 32
      omega, by show 0 < 2 ^ 31; decide⟩⟩, fun _ _ => trivial⟩
    rw [run_cons, hnone] at hrun
    exact Option.some_ne_none s hrun.symm
  · intro hle ops hops
    obtain ⟨s, hrun, hinv, -⟩ := run_total
      (P := fun ops (s : ChunkClient T) => s.Inv chunkSize ∧ s.Orderly chunkSize ops) (fun op ops s hs => by
        obtain ⟨hinv, ⟨hpermitted, hfits⟩, hrest⟩ := hs
        obtain ⟨t, ht, hinv'⟩ := perform_total hchunk hinv op hpermitted hfits
        exact ⟨t, ht, hinv', hrest t ht⟩) _ ops ⟨inv_start hshift hle memory, hops⟩
    exact ⟨s, hrun, hinv.sound hchunk⟩

/-- Three corners on pages of 4096 cells. -/
theorem chunks_sound_iff_corners :
    (∀ ops, (start 12 fun _ _ => 0).Orderly 3 ops →
      ∃ s, run (perform 3) (start 12 fun _ _ => 0) ops = some s ∧ s.Sound 3) ↔ 3 ≤ 2 ^ 12 :=
  chunks_sound_iff (by decide) (by decide) (by decide) fun _ _ => 0

/-- One corner more than a page has cells. -/
theorem not_chunks_sound :
    (start 12 fun _ _ => 0).Orderly 4097 [.getIdx 0] ∧
      run (perform 4097) (start 12 fun _ _ => 0) [.getIdx 0] = none := by
  have hnone := getIdx_large (by decide : 12 < 32) (by decide : 2 ^ 12 < 4097) (by decide) (fun _ _ => 0) 0
  refine ⟨⟨⟨trivial, fun _ => ⟨by decide, by decide⟩⟩, fun _ _ => trivial⟩, ?_⟩
  rw [run_cons, hnone]
  rfl

end ChunkClient

end OpenRoad.Db
