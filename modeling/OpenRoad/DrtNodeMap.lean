import OpenRoad.OrderedMap
import Mathlib.Logic.Function.Basic
import Mathlib.Data.Int.Order.Basic

/-!
Places on layers and the map from places to the nodes that are there.
-/

namespace OpenRoad.Drt

/-- A place on a layer. -/
structure Point3D where
  x : Int
  y : Int
  z : Int
  deriving DecidableEq

/-- `operator<` of points and equality. -/
def Point3D.le (p q : Point3D) : Prop :=
  p.x < q.x ∨ p.x = q.x ∧ (p.y < q.y ∨ p.y = q.y ∧ p.z ≤ q.z)

instance : DecidableRel Point3D.le := fun p q => by
  unfold Point3D.le
  infer_instance

instance : Std.Total Point3D.le := ⟨fun p q => by
  unfold Point3D.le
  omega⟩

instance : IsTrans Point3D Point3D.le := ⟨fun p q r hpq hqr => by
  unfold Point3D.le at *
  omega⟩

/-- `std::map<Point3D, std::set<int>>` -/
structure NodeMap where
  keys : List Point3D
  indices : Point3D → List Nat
  nodup : ∀ pt, (indices pt).Nodup
  absent : ∀ pt, pt ∉ keys → indices pt = []
  ordered : keys.Pairwise Point3D.le

namespace NodeMap

def empty : NodeMap where
  keys := []
  indices := fun _ => []
  nodup := fun _ => List.nodup_nil
  absent := fun _ _ => rfl
  ordered := List.Pairwise.nil

/-- `node_map_[pt].insert(idx)` -/
def insert (map : NodeMap) (pt : Point3D) (idx : Nat) : NodeMap where
  keys := OrderedSet.insert Point3D.le pt map.keys
  indices := Function.update map.indices pt (OrderedSet.insert (· ≤ ·) idx (map.indices pt))
  nodup := by
    intro q
    by_cases heq : q = pt
    · subst heq
      rw [Function.update_self]
      exact OrderedSet.insert_nodup (map.nodup q) idx
    · rw [Function.update_of_ne heq]
      exact map.nodup q
  absent := by
    intro q hq
    rw [OrderedSet.mem_insert, not_or] at hq
    rw [Function.update_of_ne hq.1]
    exact map.absent q hq.2
  ordered := OrderedSet.insert_pairwise map.ordered pt

/-- `node_map_[pt].erase(idx)` -/
def erase (map : NodeMap) (pt : Point3D) (idx : Nat) : NodeMap where
  keys := map.keys
  indices := Function.update map.indices pt ((map.indices pt).erase idx)
  nodup := by
    intro q
    by_cases heq : q = pt
    · subst heq
      rw [Function.update_self]
      exact (map.nodup q).erase idx
    · rw [Function.update_of_ne heq]
      exact map.nodup q
  absent := by
    intro q hq
    by_cases heq : q = pt
    · subst heq
      rw [Function.update_self, map.absent q hq, List.erase_nil]
    · rw [Function.update_of_ne heq]
      exact map.absent q hq
  ordered := map.ordered

variable (map : NodeMap) (pt : Point3D) (idx : Nat)

@[simp] theorem mem_empty (i : Nat) (q : Point3D) : i ∈ empty.indices q ↔ False := by
  show i ∈ [] ↔ False
  simp

@[simp] theorem mem_insert (i : Nat) (q : Point3D) :
    i ∈ (map.insert pt idx).indices q ↔ (q = pt ∧ i = idx) ∨ i ∈ map.indices q := by
  show i ∈ Function.update map.indices pt _ q ↔ _
  by_cases heq : q = pt
  · subst heq
    rw [Function.update_self, OrderedSet.mem_insert]
    simp
  · rw [Function.update_of_ne heq]
    simp [heq]

@[simp] theorem mem_erase (i : Nat) (q : Point3D) :
    i ∈ (map.erase pt idx).indices q ↔ i ∈ map.indices q ∧ ¬(q = pt ∧ i = idx) := by
  show i ∈ Function.update map.indices pt _ q ↔ _
  by_cases heq : q = pt
  · subst heq
    rw [Function.update_self, (map.nodup q).mem_erase_iff]
    simp [and_comm]
  · rw [Function.update_of_ne heq]
    simp [heq]

theorem mem_keys {map : NodeMap} {pt : Point3D} {idx : Nat} (h : idx ∈ map.indices pt) :
    pt ∈ map.keys := by
  by_contra hkey
  rw [map.absent pt hkey] at h
  cases h

end NodeMap

/-- A node at each of some places. -/
def insertGCells (map : NodeMap) (gcells : List Point3D) (idx : Nat) : NodeMap :=
  gcells.foldl (fun map gcell => map.insert gcell idx) map

theorem mem_insertGCells {gcells : List Point3D} {map : NodeMap} {idx i : Nat} {pt : Point3D} :
    i ∈ (insertGCells map gcells idx).indices pt ↔ i ∈ map.indices pt ∨ i = idx ∧ pt ∈ gcells := by
  induction gcells generalizing map with
  | nil => simp [insertGCells]
  | cons gcell gcells ih =>
      show i ∈ (insertGCells (map.insert gcell idx) gcells idx).indices pt ↔ _
      rw [ih, NodeMap.mem_insert, List.mem_cons]
      tauto

theorem mem_insertPins {α : Type*} (gcells : α → List Point3D) {pins : List (α × Nat)}
    {map : NodeMap} {i : Nat} {pt : Point3D} :
    i ∈ (pins.foldl (fun map pin => insertGCells map (gcells pin.1) pin.2) map).indices pt ↔
      i ∈ map.indices pt ∨ ∃ pin ∈ pins, pin.2 = i ∧ pt ∈ gcells pin.1 := by
  induction pins generalizing map with
  | nil => simp
  | cons pin pins ih =>
      rw [List.foldl_cons, ih, mem_insertGCells, List.exists_mem_cons_iff, or_assoc]
      constructor
      · rintro (h | ⟨hi, hpt⟩ | h)
        · exact Or.inl h
        · exact Or.inr (Or.inl ⟨hi.symm, hpt⟩)
        · exact Or.inr (Or.inr h)
      · rintro (h | ⟨hi, hpt⟩ | h)
        · exact Or.inl h
        · exact Or.inr (Or.inl ⟨hi.symm, hpt⟩)
        · exact Or.inr (Or.inr h)

end OpenRoad.Drt
