import Mathlib.Data.List.Sort
import Mathlib.Order.Basic
import Mathlib.Data.List.Basic
import Mathlib.Tactic.Common

/-!
Sets as a standard library keeps them: without repetitions, in the order of a relation.
-/

namespace OpenRoad.OrderedSet

variable {α : Type*} (r : α → α → Prop) [DecidableRel r] [DecidableEq α]

def insert (a : α) (set : List α) : List α := if a ∈ set then set else set.orderedInsert r a

/-- One insertion after the other. -/
def insertAll (new set : List α) : List α := new.foldl (fun set a => insert r a set) set

variable {r}

@[simp] theorem mem_insert {a b : α} {set : List α} : b ∈ insert r a set ↔ b = a ∨ b ∈ set := by
  unfold insert
  split
  · rename_i hmem
    refine ⟨Or.inr, fun h => h.elim (fun heq => ?_) id⟩
    rw [heq]
    exact hmem
  · exact List.mem_orderedInsert r

theorem insert_nodup {set : List α} (h : set.Nodup) (a : α) : (insert r a set).Nodup := by
  unfold insert
  split
  · exact h
  · rename_i hmem
    exact (List.perm_orderedInsert r a set).nodup_iff.mpr (List.nodup_cons.mpr ⟨hmem, h⟩)

theorem insert_pairwise [Std.Total r] [IsTrans α r] {set : List α} (h : set.Pairwise r) (a : α) :
    (insert r a set).Pairwise r := by
  unfold insert
  split
  · exact h
  · exact List.Pairwise.orderedInsert a set h

theorem mem_insertAll {new set : List α} {b : α} :
    b ∈ insertAll r new set ↔ b ∈ new ∨ b ∈ set := by
  induction new generalizing set with
  | nil => simp [insertAll]
  | cons a new ih =>
      show b ∈ insertAll r new (insert r a set) ↔ _
      rw [ih, mem_insert, List.mem_cons]
      tauto

theorem insertAll_pairwise [Std.Total r] [IsTrans α r] {new set : List α} (h : set.Pairwise r) :
    (insertAll r new set).Pairwise r := by
  induction new generalizing set with
  | nil => exact h
  | cons a new ih => exact ih (insert_pairwise h a)

end OpenRoad.OrderedSet

/-!
Maps as a standard library keeps them: entries in the order of their keys. A key that follows
another one without a gap is the next entry.
-/

namespace OpenRoad

structure OrderedMap (K V : Type*) [LinearOrder K] where
  entries : List (K × V)
  ordered : entries.Pairwise fun a b => a.1 < b.1

namespace OrderedMap

variable {K V : Type*} [LinearOrder K]

def empty : OrderedMap K V := ⟨[], List.Pairwise.nil⟩

def keys (map : OrderedMap K V) : List K := map.entries.map Prod.fst

def find? (map : OrderedMap K V) (key : K) : Option V :=
  (map.entries.find? fun entry => entry.1 = key).map Prod.snd

theorem find?_eq_some {map : OrderedMap K V} {key : K} {value : V} :
    map.find? key = some value ↔ (key, value) ∈ map.entries := by
  rw [find?, Option.map_eq_some_iff]
  constructor
  · rintro ⟨entry, hentry, rfl⟩
    have hkey : entry.1 = key := by simpa using List.find?_some hentry
    rw [← hkey]
    exact List.mem_of_find?_eq_some hentry
  · intro hmem
    obtain ⟨before, after, hsplit⟩ := List.append_of_mem hmem
    refine ⟨(key, value), ?_, rfl⟩
    have hordered := map.ordered
    rw [hsplit] at hordered
    rw [hsplit, List.find?_eq_some_iff_append]
    refine ⟨by simp, before, after, rfl, fun entry hentry => ?_⟩
    have hlt := (List.pairwise_append.mp hordered).2.2 entry hentry _ List.mem_cons_self
    simpa using ne_of_lt hlt

/-! ### Changing one entry -/

/-- The entry of a key is changed; where there is none, one is made from the default. -/
def alterEntry (key : K) (default : V) (f : V → V) : List (K × V) → List (K × V)
  | [] => [(key, f default)]
  | entry :: entries =>
      if key < entry.1 then (key, f default) :: entry :: entries
      else if entry.1 = key then (key, f entry.2) :: entries
      else entry :: alterEntry key default f entries

theorem key_of_mem_alterEntry {key : K} {default : V} {f : V → V} {entry : K × V} :
    ∀ {entries : List (K × V)}, entry ∈ alterEntry key default f entries →
      entry.1 = key ∨ ∃ old ∈ entries, old.1 = entry.1
  | [], h => by
      rw [List.mem_singleton.mp h]
      exact Or.inl rfl
  | first :: entries, h => by
      rw [alterEntry] at h
      split_ifs at h with hlt heq
      · rcases List.mem_cons.mp h with rfl | h
        · exact Or.inl rfl
        · exact Or.inr ⟨entry, h, rfl⟩
      · rcases List.mem_cons.mp h with rfl | h
        · exact Or.inl rfl
        · exact Or.inr ⟨entry, List.mem_cons_of_mem _ h, rfl⟩
      · rcases List.mem_cons.mp h with rfl | h
        · exact Or.inr ⟨entry, List.mem_cons_self, rfl⟩
        · exact (key_of_mem_alterEntry h).imp id fun ⟨old, hold, hkey⟩ =>
            ⟨old, List.mem_cons_of_mem _ hold, hkey⟩

theorem alterEntry_ordered (key : K) (default : V) (f : V → V) :
    ∀ {entries : List (K × V)}, entries.Pairwise (fun a b => a.1 < b.1) →
      (alterEntry key default f entries).Pairwise fun a b => a.1 < b.1
  | [], _ => List.pairwise_singleton _ _
  | first :: entries, h => by
      obtain ⟨hfirst, hrest⟩ := List.pairwise_cons.mp h
      rw [alterEntry]
      split_ifs with hlt heq
      · refine List.pairwise_cons.mpr ⟨fun entry hentry => ?_, h⟩
        rcases List.mem_cons.mp hentry with rfl | hentry
        · exact hlt
        · exact hlt.trans (hfirst entry hentry)
      · refine List.pairwise_cons.mpr ⟨fun entry hentry => ?_, hrest⟩
        rw [← heq]
        exact hfirst entry hentry
      · refine List.pairwise_cons.mpr ⟨fun entry hentry => ?_, alterEntry_ordered key default f hrest⟩
        rcases key_of_mem_alterEntry hentry with hkey | ⟨old, hold, hkey⟩
        · rw [hkey]
          exact lt_of_le_of_ne (not_lt.mp hlt) heq
        · rw [← hkey]
          exact hfirst old hold

def alter (map : OrderedMap K V) (key : K) (default : V) (f : V → V) : OrderedMap K V :=
  ⟨alterEntry key default f map.entries, alterEntry_ordered key default f map.ordered⟩

theorem find?_alterEntry (key key' : K) (default : V) (f : V → V) :
    ∀ {entries : List (K × V)}, entries.Pairwise (fun a b => a.1 < b.1) →
      ((alterEntry key default f entries).find? fun entry => entry.1 = key').map Prod.snd =
        if key' = key then
          some (f (((entries.find? fun entry => entry.1 = key).map Prod.snd).getD default))
        else (entries.find? fun entry => entry.1 = key').map Prod.snd
  | [], _ => by
      rw [alterEntry, List.find?_cons]
      split_ifs with heq
      · simp [heq]
      · simp [Ne.symm heq]
  | first :: entries, h => by
      obtain ⟨hfirst, hrest⟩ := List.pairwise_cons.mp h
      have ih := find?_alterEntry key key' default f hrest
      rw [alterEntry]
      by_cases hlt : key < first.1
      · -- no entry has the key
        have hnone : (first :: entries).find? (fun entry => entry.1 = key) = none := by
          rw [List.find?_eq_none]
          intro entry hentry
          have hle : first.1 ≤ entry.1 := by
            rcases List.mem_cons.mp hentry with rfl | hentry
            · exact le_rfl
            · exact (hfirst entry hentry).le
          simpa using (hlt.trans_le hle).ne'
        rw [if_pos hlt, hnone, List.find?_cons]
        by_cases heq : key' = key
        · simp [heq]
        · simp [heq, Ne.symm heq]
      · rw [if_neg hlt]
        by_cases hfst : first.1 = key
        · rw [if_pos hfst, List.find?_cons, List.find?_cons, List.find?_cons]
          by_cases heq : key' = key
          · simp [heq, hfst]
          · simp [heq, Ne.symm heq, hfst]
        · rw [if_neg hfst, List.find?_cons, List.find?_cons, List.find?_cons]
          by_cases hfst' : first.1 = key'
          · have hne : key' ≠ key := hfst' ▸ hfst
            simp [hfst', hne]
          · simp only [hfst, hfst', decide_false]
            exact ih

theorem find?_alter (map : OrderedMap K V) (key key' : K) (default : V) (f : V → V) :
    (map.alter key default f).find? key' =
      if key' = key then some (f ((map.find? key).getD default)) else map.find? key' :=
  find?_alterEntry key key' default f map.ordered

/-! ### Neighbours -/

/-- Two keys without a key between them follow one another. -/
theorem split_of_adjacent {map : OrderedMap K V} {a b : K × V} (ha : a ∈ map.entries)
    (hb : b ∈ map.entries) (hab : a.1 < b.1) (hnone : ∀ key, a.1 < key → ¬key < b.1) :
    ∃ before after, map.entries = before ++ a :: b :: after := by
  obtain ⟨before, after, hsplit⟩ := List.append_of_mem ha
  have hordered := map.ordered
  rw [hsplit] at hordered
  obtain ⟨-, hafter, hcross⟩ := List.pairwise_append.mp hordered
  obtain ⟨hfirst, hrest⟩ := List.pairwise_cons.mp hafter
  rw [hsplit, List.mem_append, List.mem_cons] at hb
  rcases hb with hb | rfl | hb
  · exact absurd (hcross b hb a List.mem_cons_self) (lt_asymm hab)
  · exact absurd hab (lt_irrefl _)
  · cases after with
    | nil => exact absurd hb List.not_mem_nil
    | cons c after =>
        rcases List.mem_cons.mp hb with rfl | hb
        · exact ⟨before, after, hsplit⟩
        · have hc := hfirst c List.mem_cons_self
          have hcb := (List.pairwise_cons.mp hrest).1 b hb
          exact absurd hcb (hnone c.1 hc)

theorem mem_zip_tail {α : Type*} (a b : α) (after : List α) : ∀ before : List α,
    (a, b) ∈ (before ++ a :: b :: after).zip (before ++ a :: b :: after).tail
  | [] => List.mem_cons_self
  | [c] => List.mem_cons_of_mem _ List.mem_cons_self
  | c :: d :: before => List.mem_cons_of_mem _ (mem_zip_tail a b after (d :: before))

end OrderedMap

end OpenRoad
