import OpenRoad.DbJournalWriter
import OpenRoad.MemberLists
import OpenRoad.Run
import Mathlib.Data.Finset.Card

/-!
`dbHashTable`: the named objects of a `dbTable`, chained through their `_next_entry` in the buckets of
the hash of their names. The number of buckets is doubled when the chains get long and halved when
they get short; every object is then unlinked into one list and linked again.
-/

namespace OpenRoad.Db
open ForwardList

/-- `hash_string` -/
def hashString (str : CString) : UInt32 :=
  str.bytes.foldl (fun hash c => c.toUInt32 + (hash <<< 6) + (hash <<< 16) - hash) 0

structure DbHashTable where
  hashTbl : List Nat
  numEntries : Nat
  /-- `_next_entry` of the objects -/
  nextEntry : Nat → Nat
  /-- `_name` of the objects -/
  name : Nat → CString

namespace DbHashTable

def CHAIN_LENGTH : Nat := 4

/-- A new table, for objects with any links and names. -/
def init (nextEntry : Nat → Nat) (name : Nat → CString) : DbHashTable := ⟨[], 0, nextEntry, name⟩

/-- `_hash_tbl.size()` -/
def size (H : DbHashTable) : Nat := H.hashTbl.length

/-- The bucket of a name, in a table that has buckets. -/
def hid (H : DbHashTable) (name : CString) : Nat := (hashString name).toNat &&& (H.size - 1)

def bucket (H : DbHashTable) (i : Nat) : Nat := H.hashTbl.getD i 0

/-- Put an object at the head of the chain of its name. -/
def link (H : DbHashTable) (object : Nat) : DbHashTable :=
  let hid := H.hid (H.name object)
  { H with
    nextEntry := Function.update H.nextEntry object (H.bucket hid)
    hashTbl := H.hashTbl.set hid object }

/-! ### Resizing

The chains are walked with `fuel` steps; a walk that does not end by then has no result. -/

/-- Put the objects from `cur` on in front of the list `entries`. -/
def unlinkChain : Nat → (Nat → Nat) × Nat → Nat → Option ((Nat → Nat) × Nat)
  | 0, _, _ => none
  | fuel + 1, (next, entries), cur =>
      if cur = 0 then some (next, entries)
      else unlinkChain fuel (Function.update next cur entries, cur) (next cur)

/-- Link the objects of the list from `cur` on. -/
def reinsert : Nat → DbHashTable → Nat → Option DbHashTable
  | 0, _, _ => none
  | fuel + 1, H, cur =>
      if cur = 0 then some H else reinsert fuel (H.link cur) (H.nextEntry cur)

/-- The body of `growTable` and `shrinkTable`. -/
def resize (H : DbHashTable) (sz : Nat) : Option DbHashTable :=
  (H.hashTbl.foldlM (unlinkChain (H.numEntries + 1)) (H.nextEntry, 0)).bind fun st =>
    reinsert (H.numEntries + 1) { H with hashTbl := List.replicate sz 0, nextEntry := st.1 } st.2

def growTable (H : DbHashTable) : Option DbHashTable := H.resize (H.size + H.size)

def shrinkTable (H : DbHashTable) : Option DbHashTable := H.resize (H.size / 2)

/-! ### Insert, find and remove -/

def insert (H : DbHashTable) (object : Nat) : Option DbHashTable :=
  let H := { H with numEntries := H.numEntries + 1 }
  if H.size = 0 then some ({ H with hashTbl := [0] }.link object)
  else if H.numEntries / H.size > CHAIN_LENGTH then H.growTable.map fun H => H.link object
  else some (H.link object)

/-- The first object from `cur` on with this name; null where the chain ends. -/
def findFrom (H : DbHashTable) (name : CString) : Nat → Nat → Option Nat
  | 0, _ => none
  | fuel + 1, cur =>
      if cur = 0 then some 0
      else if H.name cur = name then some cur
      else findFrom H name fuel (H.nextEntry cur)

def find (H : DbHashTable) (name : CString) : Option Nat :=
  if H.size = 0 then some 0 else H.findFrom name (H.numEntries + 1) (H.bucket (H.hid name))

/-- Take an object off the chain of its name, where `prev` is before it. -/
def unlink (H : DbHashTable) (object prev : Nat) : DbHashTable :=
  let hid := H.hid (H.name object)
  { H with
    hashTbl := H.hashTbl.set hid (bypassHead H.nextEntry (H.bucket hid) prev object)
    nextEntry := bypass H.nextEntry prev object
    numEntries := H.numEntries - 1 }

/-- `remove`; a table without buckets fails the assertion of `_hash_tbl[hid]`. -/
def remove (H : DbHashTable) (object : Nat) : Option DbHashTable :=
  if H.size = 0 then none
  else
    let cur := H.bucket (H.hid (H.name object))
    (before H.nextEntry object (H.numEntries + 1) 0 cur).bind fun found =>
      match found with
      | none => some H
      | some prev =>
          let H := H.unlink object prev
          let r := (H.numEntries + H.numEntries / 10) / H.size
          if r < CHAIN_LENGTH / 2 ∧ H.size > 1 then H.shrinkTable else some H

end DbHashTable

/-! ### Sequences of calls -/

/-- A call, or the naming of an object. -/
inductive HashOp where
  | setName (object : Nat) (name : CString)
  | insert (object : Nat)
  | remove (object : Nat)

namespace DbHashTable

/-- A call on a table and the objects in it. -/
def step (st : DbHashTable × Finset Nat) : HashOp → Option (DbHashTable × Finset Nat)
  | .setName object name => some ({ st.1 with name := Function.update st.1.name object name }, st.2)
  | .insert object => (st.1.insert object).map fun H => (H, Insert.insert object st.2)
  | .remove object => (st.1.remove object).map fun H => (H, st.2.erase object)

/-- Objects are inserted under names that no object in the table has, removed when they are in the
table, and named when they are not. -/
def Allowed (st : DbHashTable × Finset Nat) : HashOp → Prop
  | .setName object _ => object ∉ st.2
  | .insert object => object ≠ 0 ∧ object ∉ st.2 ∧ ∀ id ∈ st.2, st.1.name id ≠ st.1.name object
  | .remove object => object ∈ st.2

end DbHashTable

end OpenRoad.Db

/-!
`dbHashTable` is a map from the names of the objects in it to these objects, whatever calls made it.
-/

namespace OpenRoad.Db
open ForwardList

namespace DbHashTable

/-! ### Chains -/

/-- The chains of the buckets hold the objects `s`, each in the bucket of its name. -/
structure Chained (H : DbHashTable) (s : Finset Nat) : Prop where
  size : ∃ k, H.size = 2 ^ k
  chain : ∀ i < H.size, ∃ l, Chain H.nextEntry (H.bucket i) l ∧
    ∀ id, id ∈ l ↔ id ∈ s ∧ H.hid (H.name id) = i

theorem hid_lt (H : DbHashTable) (hsize : 0 < H.size) (name : CString) : H.hid name < H.size := by
  have hle : H.hid name ≤ H.size - 1 := Nat.and_le_right
  omega

theorem Chained.pos {H : DbHashTable} {s : Finset Nat} (h : H.Chained s) : 0 < H.size := by
  obtain ⟨k, hk⟩ := h.size
  rw [hk]
  exact Nat.two_pow_pos k

/-- A chain is no longer than there are objects. -/
theorem length_le_card {next : Nat → Nat} {head : Nat} {l : List Nat} {s : Finset Nat}
    (hchain : Chain next head l) (hmem : ∀ id ∈ l, id ∈ s) : l.length ≤ s.card := by
  rw [← List.toFinset_card_of_nodup hchain.nodup]
  exact Finset.card_le_card fun id hid => hmem id (List.mem_toFinset.mp hid)

theorem bucket_set (H : DbHashTable) {i : Nat} (hi : i < H.size) (object j : Nat) :
    (H.hashTbl.set i object).getD j 0 = if i = j then object else H.bucket j := by
  unfold bucket
  rw [List.getD_eq_getElem?_getD, List.getElem?_set, List.getD_eq_getElem?_getD]
  have hlt : i < H.hashTbl.length := hi
  by_cases hij : i = j
  · rw [if_pos hij, if_pos hij, if_pos hlt]
    rfl
  · rw [if_neg hij, if_neg hij]

theorem Chained.link {H : DbHashTable} {s : Finset Nat} (h : H.Chained s) {object : Nat}
    (hzero : object ≠ 0) (hnot : object ∉ s) : (H.link object).Chained (Insert.insert object s) := by
  have hsize : (H.link object).size = H.size := List.length_set
  have hhid : ∀ name, (H.link object).hid name = H.hid name := fun name => by
    unfold hid
    rw [hsize]
  refine ⟨by rw [hsize]; exact h.size, fun i hi => ?_⟩
  rw [hsize] at hi
  obtain ⟨l, hl, hmem⟩ := h.chain i hi
  have hnotl : object ∉ l := fun hin => hnot ((hmem object).mp hin).1
  have hbucket : (H.link object).bucket i =
      if H.hid (H.name object) = i then object else H.bucket i :=
    bucket_set H (H.hid_lt h.pos _) object i
  by_cases hi' : H.hid (H.name object) = i
  · refine ⟨object :: l, ?_, fun id => ?_⟩
    · rw [hbucket, if_pos hi']
      have hpush := chain_push hl hzero hnotl
      rw [← hi'] at hpush
      exact hpush
    · rw [hhid, List.mem_cons, hmem, Finset.mem_insert]
      change _ ↔ _ ∧ H.hid (H.name id) = i
      constructor
      · rintro (rfl | ⟨hs, hid⟩)
        · exact ⟨Or.inl rfl, hi'⟩
        · exact ⟨Or.inr hs, hid⟩
      · rintro ⟨rfl | hs, hid⟩
        · exact Or.inl rfl
        · exact Or.inr ⟨hs, hid⟩
  · refine ⟨l, ?_, fun id => ?_⟩
    · rw [hbucket, if_neg hi']
      exact hl.update hnotl _
    · rw [hhid, hmem, Finset.mem_insert]
      change _ ↔ _ ∧ H.hid (H.name id) = i
      constructor
      · rintro ⟨hs, hid⟩
        exact ⟨Or.inr hs, hid⟩
      · rintro ⟨rfl | hs, hid⟩
        · exact absurd hid hi'
        · exact ⟨hs, hid⟩

/-! ### Resizing -/

theorem unlinkChain_spec {fuel next : _} {entries cur : Nat} {l acc : List Nat}
    (hfuel : l.length < fuel) (hl : Chain next cur l) (hacc : Chain next entries acc)
    (hdisjoint : ∀ a ∈ l, a ∉ acc) :
    ∃ next' entries', unlinkChain fuel (next, entries) cur = some (next', entries') ∧
      Chain next' entries' (l.reverse ++ acc) ∧ ∀ a, a ∉ l → next' a = next a := by
  induction l generalizing fuel next entries cur acc with
  | nil =>
      obtain ⟨fuel, rfl⟩ : ∃ k, fuel = k + 1 := ⟨fuel - 1, by simp at hfuel; omega⟩
      refine ⟨next, entries, ?_, hacc, fun _ _ => rfl⟩
      rw [unlinkChain, if_pos (chain_nil.mp hl)]
  | cons a l ih =>
      obtain ⟨fuel, rfl⟩ : ∃ k, fuel = k + 1 := ⟨fuel - 1, by simp at hfuel; omega⟩
      have hnodup := hl.nodup
      obtain ⟨rfl, ha, hrest⟩ := hl
      have hnot := (List.nodup_cons.mp hnodup).1
      obtain ⟨next', entries', hrun, hchain, hsame⟩ := ih (Nat.lt_of_succ_lt_succ hfuel)
        (hrest.update hnot entries) (chain_push hacc ha (hdisjoint cur List.mem_cons_self))
        fun b hb hbacc => by
          rcases List.mem_cons.mp hbacc with rfl | hbacc
          · exact hnot hb
          · exact hdisjoint b (List.mem_cons_of_mem _ hb) hbacc
      refine ⟨next', entries', ?_, ?_, fun b hb => ?_⟩
      · rw [unlinkChain, if_neg ha]
        exact hrun
      · rw [List.reverse_cons, List.append_assoc]
        exact hchain
      · obtain ⟨hne, hb⟩ := not_or.mp fun hmem => hb (List.mem_cons.mpr hmem)
        rw [hsame b hb, Function.update_of_ne hne]

/-- All the chains are put on one list. -/
theorem unlinkAll_spec {fuel : Nat} {head key : Nat → Nat} {ls : Nat → List Nat} {is : List Nat}
    (his : is.Nodup) {next : Nat → Nat} {entries : Nat} {acc : List Nat}
    (hacc : Chain next entries acc) (hkey : ∀ a ∈ acc, key a ∉ is)
    (hls : ∀ i ∈ is, Chain next (head i) (ls i) ∧ (ls i).length < fuel ∧ ∀ a ∈ ls i, key a = i) :
    ∃ next' entries' acc',
      (is.map head).foldlM (unlinkChain fuel) (next, entries) = some (next', entries') ∧
        Chain next' entries' acc' ∧ ∀ a, a ∈ acc' ↔ a ∈ acc ∨ ∃ i ∈ is, a ∈ ls i := by
  induction is generalizing next entries acc with
  | nil => exact ⟨next, entries, acc, rfl, hacc, fun a => by simp⟩
  | cons i is ih =>
      obtain ⟨hi, his⟩ := List.nodup_cons.mp his
      obtain ⟨hl, hfuel, hli⟩ := hls i List.mem_cons_self
      obtain ⟨next₁, entries₁, hrun, hchain, hsame⟩ := unlinkChain_spec hfuel hl hacc
        fun a ha haccum => hkey a haccum (hli a ha ▸ List.mem_cons_self)
      obtain ⟨next', entries', acc', hrest, hchain', hmem⟩ := ih his hchain
        (fun a ha hkeyIn => by
          rcases List.mem_append.mp ha with ha | ha
          · exact hi (hli a (List.mem_reverse.mp ha) ▸ hkeyIn)
          · exact hkey a ha (List.mem_cons_of_mem _ hkeyIn))
        (fun j hj => by
          obtain ⟨hlj, hfuelj, hkeyj⟩ := hls j (List.mem_cons_of_mem _ hj)
          refine ⟨hlj.congr fun a ha => hsame a fun hai => hi ?_, hfuelj, hkeyj⟩
          rw [← hli a hai, hkeyj a ha]
          exact hj)
      refine ⟨next', entries', acc', ?_, hchain', fun a => ?_⟩
      · rw [List.map_cons, List.foldlM_cons, hrun]
        exact hrest
      · rw [hmem, List.mem_append, List.mem_reverse]
        simp only [List.mem_cons, exists_eq_or_imp]
        rw [or_assoc, or_left_comm]

theorem reinsert_spec {fuel : Nat} {H : DbHashTable} {s : Finset Nat} {cur : Nat} {l : List Nat}
    (hfuel : l.length < fuel) (h : H.Chained s) (hl : Chain H.nextEntry cur l)
    (hdisjoint : ∀ a ∈ l, a ∉ s) :
    ∃ H', reinsert fuel H cur = some H' ∧ H'.Chained (s ∪ l.toFinset) ∧ H'.size = H.size ∧
      H'.numEntries = H.numEntries ∧ H'.name = H.name := by
  induction l generalizing fuel H s cur with
  | nil =>
      obtain ⟨fuel, rfl⟩ : ∃ k, fuel = k + 1 := ⟨fuel - 1, by simp at hfuel; omega⟩
      refine ⟨H, ?_, ?_, rfl, rfl, rfl⟩
      · rw [reinsert, if_pos (chain_nil.mp hl)]
      · rw [List.toFinset_nil, Finset.union_empty]
        exact h
  | cons a l ih =>
      obtain ⟨fuel, rfl⟩ : ∃ k, fuel = k + 1 := ⟨fuel - 1, by simp at hfuel; omega⟩
      have hnodup := hl.nodup
      obtain ⟨rfl, ha, hrest⟩ := hl
      have hnot := (List.nodup_cons.mp hnodup).1
      have hcur := hdisjoint cur List.mem_cons_self
      obtain ⟨H', hrun, hchained, hsize, hnum, hname⟩ := ih (Nat.lt_of_succ_lt_succ hfuel)
        (h.link ha hcur) (hrest.update hnot _) fun b hb hbs => by
          rcases Finset.mem_insert.mp hbs with rfl | hbs
          · exact hnot hb
          · exact hdisjoint b (List.mem_cons_of_mem _ hb) hbs
      refine ⟨H', ?_, ?_, hsize.trans List.length_set, hnum, hname⟩
      · rw [reinsert, if_neg ha]
        exact hrun
      · rw [List.toFinset_cons, Finset.union_insert, ← Finset.insert_union]
        exact hchained

theorem hashTbl_eq (H : DbHashTable) : H.hashTbl = (List.range H.size).map H.bucket := by
  refine List.ext_getElem (by simp [size]) fun i hi _ => ?_
  rw [List.getElem_map, List.getElem_range]
  unfold bucket
  rw [List.getD_eq_getElem?_getD, List.getElem?_eq_getElem hi]
  rfl

theorem chained_replicate (H : DbHashTable) (k : Nat) (next : Nat → Nat) :
    ({ H with hashTbl := List.replicate (2 ^ k) 0, nextEntry := next } : DbHashTable).Chained ∅ := by
  refine ⟨⟨k, List.length_replicate⟩, fun i hi => ⟨[], ?_, fun id => by simp⟩⟩
  have hlt : i < 2 ^ k := by simpa [size] using hi
  unfold bucket
  rw [List.getD_eq_getElem?_getD, List.getElem?_replicate, if_pos hlt]
  rfl

theorem resize_spec {H : DbHashTable} {s : Finset Nat} (h : H.Chained s)
    (hcard : s.card ≤ H.numEntries) (k : Nat) :
    ∃ H', H.resize (2 ^ k) = some H' ∧ H'.Chained s ∧ H'.size = 2 ^ k ∧
      H'.numEntries = H.numEntries ∧ H'.name = H.name := by
  have hex : ∀ i, ∃ l, i < H.size → Chain H.nextEntry (H.bucket i) l ∧
      ∀ id, id ∈ l ↔ id ∈ s ∧ H.hid (H.name id) = i := fun i => by
    by_cases hi : i < H.size
    · obtain ⟨l, hl⟩ := h.chain i hi
      exact ⟨l, fun _ => hl⟩
    · exact ⟨[], fun hi' => absurd hi' hi⟩
  choose ls hls using hex
  have hrange : (List.range H.size).Nodup := List.nodup_range
  obtain ⟨next, entries, acc, hunlink, hacc, hmem⟩ := @unlinkAll_spec (H.numEntries + 1) H.bucket
    (fun id => H.hid (H.name id)) ls _ hrange H.nextEntry 0 [] rfl (by simp) fun i hi => by
      obtain ⟨hl, hli⟩ := hls i (List.mem_range.mp hi)
      refine ⟨hl, ?_, fun a ha => ((hli a).mp ha).2⟩
      have hle := length_le_card hl fun id hid => ((hli id).mp hid).1
      omega
  have hset : ∀ a, a ∈ acc ↔ a ∈ s := fun a => by
    rw [hmem]
    constructor
    · rintro (hnil | ⟨i, hi, ha⟩)
      · exact absurd hnil List.not_mem_nil
      · exact (((hls i (List.mem_range.mp hi)).2 a).mp ha).1
    · intro ha
      have hlt := H.hid_lt h.pos (H.name a)
      exact Or.inr ⟨_, List.mem_range.mpr hlt, ((hls _ hlt).2 a).mpr ⟨ha, rfl⟩⟩
  have hle := length_le_card hacc fun id hid => (hset id).mp hid
  have hfuel : acc.length < H.numEntries + 1 := by omega
  obtain ⟨H', hrun, hchained, hsize, hnum, hname⟩ :=
    reinsert_spec hfuel (chained_replicate H k next) hacc (by simp)
  refine ⟨H', ?_, ?_, hsize.trans List.length_replicate, hnum, hname⟩
  · unfold resize
    rw [H.hashTbl_eq, hunlink]
    exact hrun
  · have hs : s = ∅ ∪ acc.toFinset := by
      rw [Finset.empty_union]
      ext a
      rw [List.mem_toFinset, hset]
    rw [hs]
    exact hchained

/-! ### The calls -/

/-- The objects `s` are in the table. -/
structure Holds (H : DbHashTable) (s : Finset Nat) : Prop where
  chained : H.size = 0 ∧ s = ∅ ∨ H.Chained s
  numEntries : H.numEntries = s.card
  zero : 0 ∉ s
  names : ∀ id ∈ s, ∀ id' ∈ s, H.name id = H.name id' → id = id'

/-- The chains do not depend on the counter. -/
theorem Chained.count {H : DbHashTable} {s : Finset Nat} (h : H.Chained s) (n : Nat) :
    ({ H with numEntries := n } : DbHashTable).Chained s := ⟨h.size, h.chain⟩

theorem insert_spec {H : DbHashTable} {s : Finset Nat} (h : H.Holds s) {object : Nat}
    (hzero : object ≠ 0) (hnot : object ∉ s) (hname : ∀ id ∈ s, H.name id ≠ H.name object) :
    ∃ H', H.insert object = some H' ∧ H'.Holds (Insert.insert object s) := by
  -- what is left is to link the object in a table with buckets
  have hlink : ∀ H₁ : DbHashTable, H₁.Chained s → H₁.numEntries = s.card + 1 → H₁.name = H.name →
      (H₁.link object).Holds (Insert.insert object s) := fun H₁ hchained hnum hsame => by
    refine ⟨Or.inr (hchained.link hzero hnot), ?_, ?_, ?_⟩
    · rw [Finset.card_insert_of_notMem hnot]
      exact hnum
    · rw [Finset.mem_insert, not_or]
      exact ⟨hzero.symm, h.zero⟩
    · intro id hid id' hid' heq
      change H₁.name id = H₁.name id' at heq
      rw [hsame] at heq
      rcases Finset.mem_insert.mp hid with rfl | hs <;> rcases Finset.mem_insert.mp hid' with rfl | hs'
      · rfl
      · exact absurd heq.symm (hname id' hs')
      · exact absurd heq (hname id hs)
      · exact h.names id hs id' hs' heq
  have hcount : ({ H with numEntries := H.numEntries + 1 } : DbHashTable).size = H.size := rfl
  unfold insert
  dsimp only
  rw [hcount]
  by_cases hsize : H.size = 0
  · rw [if_pos hsize]
    refine ⟨_, rfl, hlink _ ?_ (by rw [h.numEntries]) rfl⟩
    obtain ⟨-, rfl⟩ := h.chained.resolve_right fun hc => absurd hsize (Nat.pos_iff_ne_zero.mp hc.pos)
    exact chained_replicate { H with numEntries := H.numEntries + 1 } 0 H.nextEntry
  · have hchained := h.chained.resolve_left fun hc => hsize hc.1
    rw [if_neg hsize]
    split
    · obtain ⟨k, hk⟩ := hchained.size
      obtain ⟨H₁, hgrow, hchained₁, -, hnum, hsame⟩ := resize_spec
        (hchained.count (H.numEntries + 1)) (by rw [h.numEntries]; exact Nat.le_succ _) (k + 1)
      have hdouble : H.size + H.size = 2 ^ (k + 1) := by rw [hk, Nat.pow_succ, Nat.mul_two]
      refine ⟨_, ?_, hlink H₁ hchained₁ (by rw [hnum, h.numEntries]) hsame⟩
      unfold growTable
      change (resize _ (H.size + H.size)).map _ = _
      rw [hdouble, hgrow]
      rfl
    · exact ⟨_, rfl, hlink _ (hchained.count _) (by rw [h.numEntries]) rfl⟩

theorem Chained.unlink {H : DbHashTable} {s : Finset Nat} (h : H.Chained s) {object : Nat}
    (hmem : object ∈ s) (hcard : s.card ≤ H.numEntries) :
    ∃ prev, before H.nextEntry object (H.numEntries + 1) 0 (H.bucket (H.hid (H.name object))) =
        some (some prev) ∧ (H.unlink object prev).Chained (s.erase object) := by
  have hlt := H.hid_lt h.pos (H.name object)
  obtain ⟨l, hl, hli⟩ := h.chain _ hlt
  obtain ⟨l₁, l₂, rfl⟩ := List.append_of_mem ((hli object).mpr ⟨hmem, rfl⟩)
  have hle := length_le_card hl fun id hid => ((hli id).mp hid).1
  have hfuel : l₁.length < H.numEntries + 1 := by
    rw [List.length_append, List.length_cons] at hle
    omega
  refine ⟨lastOf 0 l₁, before_mem hl hfuel, ?_⟩
  have hsize : (H.unlink object (lastOf 0 l₁)).size = H.size := List.length_set
  have hhid : ∀ name, (H.unlink object (lastOf 0 l₁)).hid name = H.hid name := fun name => by
    unfold hid
    rw [hsize]
  refine ⟨by rw [hsize]; exact h.size, fun i hi => ?_⟩
  rw [hsize] at hi
  have hbucket : (H.unlink object (lastOf 0 l₁)).bucket i = _ := bucket_set H hlt _ i
  by_cases hi' : H.hid (H.name object) = i
  · refine ⟨l₁ ++ l₂, ?_, fun id => ?_⟩
    · rw [hbucket, if_pos hi']
      exact chain_bypass hl
    · have hnodup := List.nodup_append.mp hl.nodup
      have hin := hli id
      rw [hi', List.mem_append, List.mem_cons] at hin
      rw [hhid, Finset.mem_erase, and_assoc, List.mem_append]
      change _ ↔ id ≠ object ∧ id ∈ s ∧ H.hid (H.name id) = i
      rw [← hin]
      constructor
      · rintro (hid | hid)
        · exact ⟨hnodup.2.2 id hid object List.mem_cons_self, Or.inl hid⟩
        · refine ⟨?_, Or.inr (Or.inr hid)⟩
          rintro rfl
          exact (List.nodup_cons.mp hnodup.2.1).1 hid
      · rintro ⟨hne, hid | rfl | hid⟩
        · exact Or.inl hid
        · exact absurd rfl hne
        · exact Or.inr hid
  · obtain ⟨l, hl', hli'⟩ := h.chain i hi
    refine ⟨l, ?_, fun id => ?_⟩
    · rw [hbucket, if_neg hi']
      change Chain (bypass H.nextEntry (lastOf 0 l₁) object) _ _
      unfold bypass
      split
      · exact hl'
      · -- what is before the object is in its bucket
        refine hl'.update (fun hin => hi' ?_) _
        rcases List.eq_nil_or_concat l₁ with rfl | ⟨l₀, p, rfl⟩
        · exact absurd rfl ‹¬lastOf 0 [] = 0›
        · rw [List.concat_eq_append, lastOf_concat] at hin
          have hp := (hli p).mp (by simp)
          exact hp.2.symm.trans ((hli' p).mp hin).2
    · rw [hhid, hli', Finset.mem_erase, and_assoc]
      change _ ↔ id ≠ object ∧ id ∈ s ∧ H.hid (H.name id) = i
      refine ⟨fun hin => ⟨?_, hin⟩, fun hin => hin.2⟩
      rintro rfl
      exact hi' hin.2

theorem remove_spec {H : DbHashTable} {s : Finset Nat} (h : H.Holds s) {object : Nat}
    (hmem : object ∈ s) : ∃ H', H.remove object = some H' ∧ H'.Holds (s.erase object) := by
  have hchained := h.chained.resolve_left fun hc => by
    rw [hc.2] at hmem
    exact absurd hmem (Finset.notMem_empty _)
  obtain ⟨prev, hbefore, hunlinked⟩ := hchained.unlink hmem h.numEntries.ge
  have hnum : (H.unlink object prev).numEntries = (s.erase object).card := by
    rw [Finset.card_erase_of_mem hmem, ← h.numEntries]
    rfl
  -- the names do not change, and a table that is shrunk holds the same objects
  have hholds : ∀ H' : DbHashTable, H'.Chained (s.erase object) → H'.numEntries = (s.erase object).card →
      H'.name = H.name → H'.Holds (s.erase object) := fun H' hc hn hsame => by
    refine ⟨Or.inr hc, hn, fun hz => h.zero (Finset.mem_of_mem_erase hz), ?_⟩
    rw [hsame]
    exact fun id hid id' hid' =>
      h.names id (Finset.mem_of_mem_erase hid) id' (Finset.mem_of_mem_erase hid')
  unfold remove
  rw [if_neg (Nat.pos_iff_ne_zero.mp hchained.pos)]
  dsimp only
  rw [hbefore, Option.bind_some]
  dsimp only
  split
  · rename_i hshort
    obtain ⟨k, hk⟩ := hunlinked.size
    obtain ⟨k, rfl⟩ : ∃ j, k = j + 1 := by
      cases k with
      | zero => exact absurd hshort.2 (by rw [hk]; exact Nat.lt_irrefl 1)
      | succ j => exact ⟨j, rfl⟩
    obtain ⟨H', hshrink, hchained', -, hnum', hsame⟩ := resize_spec hunlinked hnum.ge k
    have hhalf : (H.unlink object prev).size / 2 = 2 ^ k := by
      rw [hk, Nat.pow_succ]
      exact Nat.mul_div_cancel _ Nat.two_pos
    refine ⟨H', ?_, hholds H' hchained' (hnum'.trans hnum) hsame⟩
    unfold shrinkTable
    rw [hhalf, hshrink]
  · exact ⟨_, rfl, hholds _ hunlinked hnum rfl⟩

theorem findFrom_spec {H : DbHashTable} {name : CString} {fuel cur : Nat} {l : List Nat}
    (hl : Chain H.nextEntry cur l) (hfuel : l.length < fuel) :
    ∃ id, H.findFrom name fuel cur = some id ∧ (id ≠ 0 → id ∈ l ∧ H.name id = name) ∧
      (id = 0 → ∀ a ∈ l, H.name a ≠ name) := by
  induction l generalizing fuel cur with
  | nil =>
      obtain ⟨fuel, rfl⟩ : ∃ k, fuel = k + 1 := ⟨fuel - 1, by simp at hfuel; omega⟩
      refine ⟨0, ?_, fun h => absurd rfl h, fun _ a ha => absurd ha List.not_mem_nil⟩
      rw [findFrom, if_pos (chain_nil.mp hl)]
  | cons a l ih =>
      obtain ⟨fuel, rfl⟩ : ∃ k, fuel = k + 1 := ⟨fuel - 1, by simp at hfuel; omega⟩
      obtain ⟨rfl, ha, hrest⟩ := hl
      rw [findFrom, if_neg ha]
      by_cases hname : H.name cur = name
      · rw [if_pos hname]
        exact ⟨cur, rfl, fun _ => ⟨List.mem_cons_self, hname⟩, fun h => absurd h ha⟩
      · rw [if_neg hname]
        obtain ⟨id, hfind, hsome, hnone⟩ := ih hrest (Nat.lt_of_succ_lt_succ hfuel)
        refine ⟨id, hfind, fun h => ⟨List.mem_cons_of_mem _ (hsome h).1, (hsome h).2⟩, fun h b hb => ?_⟩
        rcases List.mem_cons.mp hb with rfl | hb
        · exact hname
        · exact hnone h b hb

/-- `find` returns the object of the name, and null where there is none. -/
theorem find_spec {H : DbHashTable} {s : Finset Nat} (h : H.Holds s) (name : CString) :
    ∃ id, H.find name = some id ∧ (id ≠ 0 → id ∈ s ∧ H.name id = name) ∧
      (id = 0 → ∀ a ∈ s, H.name a ≠ name) := by
  unfold find
  rcases h.chained with ⟨hsize, rfl⟩ | hchained
  · rw [if_pos hsize]
    exact ⟨0, rfl, fun h => absurd rfl h, fun _ a ha => absurd ha (Finset.notMem_empty a)⟩
  · rw [if_neg (Nat.pos_iff_ne_zero.mp hchained.pos)]
    obtain ⟨l, hl, hli⟩ := hchained.chain _ (H.hid_lt hchained.pos name)
    have hle := length_le_card hl fun id hid => ((hli id).mp hid).1
    have hnum := h.numEntries
    have hfuel : l.length < H.numEntries + 1 := by omega
    obtain ⟨id, hfind, hsome, hnone⟩ := @findFrom_spec H name _ _ l hl hfuel
    refine ⟨id, hfind, fun hid => ⟨((hli id).mp (hsome hid).1).1, (hsome hid).2⟩, fun hid a ha hname => ?_⟩
    exact hnone hid a ((hli a).mpr ⟨ha, by rw [hname]⟩) hname

/-! ### Sequences of calls -/

/-- The table is a map from the names of the objects `s` to these objects. -/
structure TableOk (H : DbHashTable) (s : Finset Nat) : Prop where
  /-- the number of buckets is a power of two, or there are none -/
  size : H.size = 0 ∨ ∃ k, H.size = 2 ^ k
  /-- each bucket is the head of a chain that ends and holds the objects of its hash -/
  chain : ∀ i < H.size, ∃ l, Chain H.nextEntry (H.bucket i) l ∧ l.Nodup ∧
    ∀ id, id ∈ l ↔ id ∈ s ∧ H.hid (H.name id) = i
  hid_lt : ∀ id ∈ s, H.hid (H.name id) < H.size
  numEntries : H.numEntries = s.card
  find : ∀ name, ∃ id, H.find name = some id ∧ (id ≠ 0 → id ∈ s ∧ H.name id = name) ∧
    (id = 0 → ∀ a ∈ s, H.name a ≠ name)

theorem Holds.tableOk {H : DbHashTable} {s : Finset Nat} (h : H.Holds s) : H.TableOk s := by
  rcases h.chained with ⟨hsize, rfl⟩ | hchained
  · refine ⟨Or.inl hsize, fun i hi => ?_, fun id hid => ?_, h.numEntries, find_spec h⟩
    · rw [hsize] at hi
      exact absurd hi (Nat.not_lt_zero i)
    · exact absurd hid (Finset.notMem_empty id)
  · refine ⟨Or.inr hchained.size, fun i hi => ?_, fun id _ => H.hid_lt hchained.pos _, h.numEntries,
      find_spec h⟩
    obtain ⟨l, hl, hli⟩ := hchained.chain i hi
    exact ⟨l, hl, hl.nodup, hli⟩

theorem holds_init (nextEntry : Nat → Nat) (name : Nat → CString) :
    (init nextEntry name).Holds ∅ where
  chained := Or.inl ⟨rfl, rfl⟩
  numEntries := rfl
  zero := Finset.notMem_empty 0
  names := fun id hid => absurd hid (Finset.notMem_empty id)

theorem setName_spec {H : DbHashTable} {s : Finset Nat} (h : H.Holds s) {object : Nat}
    (hnot : object ∉ s) (name : CString) :
    ({ H with name := Function.update H.name object name } : DbHashTable).Holds s := by
  have hsame : ∀ id ∈ s, Function.update H.name object name id = H.name id := fun id hid =>
    Function.update_of_ne (fun heq : id = object => hnot (heq ▸ hid)) _ _
  refine ⟨?_, h.numEntries, h.zero, fun id hid id' hid' heq => ?_⟩
  · rcases h.chained with hempty | hchained
    · exact Or.inl hempty
    · refine Or.inr ⟨hchained.size, fun i hi => ?_⟩
      obtain ⟨l, hl, hli⟩ := hchained.chain i hi
      refine ⟨l, hl, fun id => (hli id).trans (and_congr_right fun hid => ?_)⟩
      change _ ↔ H.hid (Function.update H.name object name id) = i
      rw [hsame id hid]
  · change Function.update H.name object name id = Function.update H.name object name id' at heq
    rw [hsame id hid, hsame id' hid'] at heq
    exact h.names id hid id' hid' heq

/-- Every call that is allowed succeeds and leaves the table in order. -/
theorem holds_step {st : DbHashTable × Finset Nat} (h : st.1.Holds st.2) {op : HashOp}
    (hallowed : Allowed st op) : ∃ st', step st op = some st' ∧ st'.1.Holds st'.2 := by
  cases op with
  | setName object name => exact ⟨_, rfl, setName_spec h hallowed name⟩
  | insert object =>
      obtain ⟨hzero, hnot, hname⟩ := hallowed
      obtain ⟨H', hinsert, hholds⟩ := insert_spec h hzero hnot hname
      exact ⟨(H', _), by rw [step, hinsert]; rfl, hholds⟩
  | remove object =>
      obtain ⟨H', hremove, hholds⟩ := remove_spec h hallowed
      exact ⟨(H', _), by rw [step, hremove]; rfl, hholds⟩

/-- Every sequence of calls succeeds, and leaves a map of the objects that are in the table. -/
theorem tableOk_of_run (nextEntry : Nat → Nat) (name : Nat → CString) (ops : List HashOp)
    (hallowed : Run.Along step Allowed (init nextEntry name, ∅) ops) :
    ∃ st, Run.run step (init nextEntry name, ∅) ops = some st ∧ st.1.TableOk st.2 := by
  obtain ⟨st, hrun, hholds, -⟩ := Run.run_total
    (P := fun ops st => st.1.Holds st.2 ∧ Run.Along step Allowed st ops)
    (fun op ops st h => by
      obtain ⟨st', hstep, hholds⟩ := holds_step h.1 h.2.1
      exact ⟨st', hstep, hholds, h.2.2 st' hstep⟩)
    (init nextEntry name, ∅) ops ⟨holds_init nextEntry name, hallowed⟩
  exact ⟨st, hrun, hholds.tableOk⟩

instance (st : DbHashTable × Finset Nat) (op : HashOp) : Decidable (Allowed st op) := by
  cases op <;> unfold Allowed <;> infer_instance

/-- Five objects, for the last of which the table grows, and one of them removed. -/
def fiveInserts : List HashOp :=
  [.setName 1 ⟨[97], by decide⟩, .insert 1, .setName 2 ⟨[98], by decide⟩, .insert 2,
    .setName 3 ⟨[99], by decide⟩, .insert 3, .setName 4 ⟨[100], by decide⟩, .insert 4,
    .setName 5 ⟨[101], by decide⟩, .insert 5, .remove 3]

theorem tableOk_of_run_five :
    ∃ st, Run.run step (init (fun _ => 0) fun _ => ⟨[], by decide⟩, ∅) fiveInserts = some st ∧
      st.1.TableOk st.2 :=
  tableOk_of_run (fun _ => 0) (fun _ => ⟨[], by decide⟩) fiveInserts (by decide +kernel)

example : (Run.run step (init (fun _ => 0) fun _ => ⟨[], by decide⟩, ∅) fiveInserts).map
    (fun st => st.1.hashTbl) = some [4, 5] := by
  decide +kernel

end DbHashTable

end OpenRoad.Db
