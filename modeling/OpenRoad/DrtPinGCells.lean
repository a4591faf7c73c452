import OpenRoad.DbGeometry
import OpenRoad.DrtNodeMap

/-!
The rectangles of the guides of a net, and the gcells of its pins.
-/

namespace OpenRoad.Drt

/-- `frRect`: the box is in gcells or, before the guides are split, in coordinates. -/
structure FrRect where
  box : Db.Rect
  layerNum : Int
  deriving DecidableEq

/-- The gcells of every pin; pins are numbered by their ids. -/
structure PinGCellMap where
  entries : List (Nat × List Point3D)
  ordered : entries.Pairwise fun first second => first.1 < second.1

namespace PinGCellMap

def insertEntry (pin : Nat) (gcell : Point3D) :
    List (Nat × List Point3D) → List (Nat × List Point3D)
  | [] => [(pin, [gcell])]
  | entry :: entries =>
      if pin < entry.1 then (pin, [gcell]) :: entry :: entries
      else if pin = entry.1 then (pin, OrderedSet.insert Point3D.le gcell entry.2) :: entries
      else entry :: insertEntry pin gcell entries

theorem key_of_mem_insertEntry {pin : Nat} {gcell : Point3D} {entries : List (Nat × List Point3D)}
    {entry : Nat × List Point3D} (h : entry ∈ insertEntry pin gcell entries) :
    entry.1 = pin ∨ ∃ old ∈ entries, old.1 = entry.1 := by
  induction entries with
  | nil =>
      rw [List.mem_singleton.mp h]
      exact Or.inl rfl
  | cons first entries ih =>
      unfold insertEntry at h
      split_ifs at h with hlt heq
      · rcases List.mem_cons.mp h with rfl | h
        · exact Or.inl rfl
        · exact Or.inr ⟨entry, h, rfl⟩
      · rcases List.mem_cons.mp h with rfl | h
        · exact Or.inl rfl
        · exact Or.inr ⟨entry, List.mem_cons_of_mem _ h, rfl⟩
      · rcases List.mem_cons.mp h with rfl | h
        · exact Or.inr ⟨entry, List.mem_cons_self, rfl⟩
        · exact (ih h).imp id fun ⟨old, hold, hkey⟩ => ⟨old, List.mem_cons_of_mem _ hold, hkey⟩

theorem insertEntry_ordered (pin : Nat) (gcell : Point3D) {entries : List (Nat × List Point3D)}
    (h : entries.Pairwise fun first second => first.1 < second.1) :
    (insertEntry pin gcell entries).Pairwise fun first second => first.1 < second.1 := by
  induction entries with
  | nil => exact List.pairwise_singleton _ _
  | cons first entries ih =>
      obtain ⟨hfirst, hrest⟩ := List.pairwise_cons.mp h
      unfold insertEntry
      split_ifs with hlt heq
      · refine List.pairwise_cons.mpr ⟨fun entry hentry => ?_, h⟩
        rcases List.mem_cons.mp hentry with rfl | hentry
        · exact hlt
        · exact hlt.trans (hfirst entry hentry)
      · refine List.pairwise_cons.mpr ⟨fun entry hentry => ?_, hrest⟩
        show pin < entry.1
        rw [heq]
        exact hfirst entry hentry
      · refine List.pairwise_cons.mpr ⟨fun entry hentry => ?_, ih hrest⟩
        rcases key_of_mem_insertEntry hentry with hkey | ⟨old, hold, hkey⟩
        · omega
        · rw [← hkey]
          exact hfirst old hold

/-- `pin_gcell_map[pin].insert(gcell)` -/
def insert (map : PinGCellMap) (pin : Nat) (gcell : Point3D) : PinGCellMap where
  entries := insertEntry pin gcell map.entries
  ordered := insertEntry_ordered pin gcell map.ordered

end PinGCellMap

end OpenRoad.Drt
