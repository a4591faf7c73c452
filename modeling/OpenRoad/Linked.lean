import Mathlib.Logic.Relation

/-!
Connected parts of a relation: the members of a set are linked if a chain of members joins any two
of them. A map that keeps links, or contracts them, keeps its image linked.
-/

namespace OpenRoad

open Relation

variable {α β : Type*}

/-- A link between two members of `S`. -/
def Within (S : α → Prop) (link : α → α → Prop) (a b : α) : Prop := S a ∧ S b ∧ link a b

/-- Any two members are joined by a chain of members. -/
def Linked (S : α → Prop) (link : α → α → Prop) : Prop :=
  ∀ a b, S a → S b → ReflTransGen (Within S link) a b

namespace Linked

variable {S : α → Prop} {link : α → α → Prop}

theorem chain_symm (hsymm : ∀ a b, link a b → link b a) {a b : α}
    (h : ReflTransGen (Within S link) a b) : ReflTransGen (Within S link) b a := by
  induction h with
  | refl => exact ReflTransGen.refl
  | tail _ hstep ih => exact ReflTransGen.head ⟨hstep.2.1, hstep.1, hsymm _ _ hstep.2.2⟩ ih

/-- It is enough that a chain joins one member to all the others. -/
theorem of_root (hsymm : ∀ a b, link a b → link b a) {root : α}
    (hroot : ∀ a, S a → ReflTransGen (Within S link) root a) : Linked S link := by
  intro a b ha hb
  have hback : ReflTransGen (Within S link) a root := chain_symm hsymm (hroot a ha)
  exact hback.trans (hroot b hb)

/-- The image of a linked set under a map that keeps or contracts every link. -/
theorem image (h : Linked S link) {T : β → Prop} {link' : β → β → Prop} (f : α → β)
    (hcover : ∀ b, T b → ∃ a, S a ∧ f a = b)
    (hlink : ∀ a b, S a → S b → link a b → f a = f b ∨ Within T link' (f a) (f b)) :
    Linked T link' := by
  intro x y hx hy
  obtain ⟨a, ha, rfl⟩ := hcover x hx
  obtain ⟨b, hb, rfl⟩ := hcover y hy
  have hchain := h a b ha hb
  clear hx hy hb
  induction hchain with
  | refl => exact ReflTransGen.refl
  | tail _ hstep ih =>
      rcases hlink _ _ hstep.1 hstep.2.1 hstep.2.2 with heq | hwithin
      · rw [← heq]
        exact ih
      · exact ReflTransGen.tail ih hwithin

/-- A set that takes new members in and breaks links up into chains. -/
theorem refine (h : Linked S link) {T : α → Prop} {link' : α → α → Prop}
    (hsymm : ∀ a b, link' a b → link' b a)
    (hnew : ∀ b, T b → ∃ a, S a ∧ ReflTransGen (Within T link') a b)
    (hlink : ∀ a b, S a → S b → link a b → ReflTransGen (Within T link') a b) :
    Linked T link' := by
  have hchain : ∀ a b, ReflTransGen (Within S link) a b → ReflTransGen (Within T link') a b := by
    intro a b hab
    induction hab with
    | refl => exact ReflTransGen.refl
    | tail _ hstep ih => exact ih.trans (hlink _ _ hstep.1 hstep.2.1 hstep.2.2)
  intro x y hx hy
  obtain ⟨a, ha, hax⟩ := hnew x hx
  obtain ⟨b, hb, hby⟩ := hnew y hy
  exact (chain_symm hsymm hax).trans ((hchain a b (h a b ha hb)).trans hby)

theorem mono (h : Linked S link) {link' : α → α → Prop}
    (hlink : ∀ a b, S a → S b → link a b → a = b ∨ link' a b) : Linked S link' := by
  apply h.image id (fun b hb => ⟨b, hb, rfl⟩)
  intro a b ha hb hab
  exact (hlink a b ha hb hab).imp id fun hab' => ⟨ha, hb, hab'⟩

end Linked

end OpenRoad

/-!
Groups that may overlap. Two elements are linked when a chain of groups leads from one to the other,
each sharing an element with the next. A list of groups is unjoined when no group brings together
elements of earlier groups that were not linked before.
-/

namespace OpenRoad.GroupLinks

variable {α β : Type*}

def Covered (groups : List (List α)) (v : α) : Prop := ∃ g ∈ groups, v ∈ g

def Shares (groups : List (List α)) (u v : α) : Prop := ∃ g ∈ groups, u ∈ g ∧ v ∈ g

def Linked (groups : List (List α)) : α → α → Prop := Relation.ReflTransGen (Shares groups)

variable {groups groups' : List (List α)} {u v w : α}

theorem Shares.symm (h : Shares groups u v) : Shares groups v u := by
  obtain ⟨g, hg, hu, hv⟩ := h
  exact ⟨g, hg, hv, hu⟩

theorem Linked.symm (h : Linked groups u v) : Linked groups v u := by
  induction h with
  | refl => exact Relation.ReflTransGen.refl
  | tail _ hshares ih => exact Relation.ReflTransGen.head hshares.symm ih

theorem Linked.trans (h : Linked groups u v) (h' : Linked groups v w) : Linked groups u w :=
  Relation.ReflTransGen.trans h h'

theorem linked_of_mem {g : List α} (hg : g ∈ groups) (hu : u ∈ g) (hv : v ∈ g) :
    Linked groups u v :=
  Relation.ReflTransGen.single ⟨g, hg, hu, hv⟩

theorem Linked.mono (hsub : ∀ g ∈ groups, g ∈ groups') (h : Linked groups u v) :
    Linked groups' u v := by
  induction h with
  | refl => exact Relation.ReflTransGen.refl
  | tail _ hshares ih =>
      obtain ⟨g, hg, hmem⟩ := hshares
      exact ih.tail ⟨g, hsub g hg, hmem⟩

/-- A labelling that is constant on every group is constant on linked elements. -/
theorem Linked.label_eq {label : α → β}
    (hlabel : ∀ g ∈ groups, ∀ u ∈ g, ∀ v ∈ g, label u = label v) (h : Linked groups u v) :
    label u = label v := by
  induction h with
  | refl => rfl
  | tail _ hshares ih =>
      obtain ⟨g, hg, hu, hv⟩ := hshares
      exact ih.trans (hlabel g hg _ hu _ hv)

/-- The elements of a group that are in earlier groups were linked before. -/
def Unjoined (groups : List (List α)) : Prop :=
  ∀ earlier g later, groups = earlier ++ g :: later →
    ∀ u ∈ g, ∀ v ∈ g, Covered earlier u → Covered earlier v → Linked earlier u v

theorem Unjoined.of_append {earlier later : List (List α)} (h : Unjoined (earlier ++ later)) :
    Unjoined earlier := by
  intro earlier' g later' heq
  apply h earlier' g (later' ++ later)
  rw [heq, List.append_assoc, List.cons_append]

end OpenRoad.GroupLinks
