import Mathlib.Logic.Function.Basic
import Mathlib.Data.List.Nodup
import Mathlib.Data.List.Perm.Subperm
import Mathlib.Tactic.Common

/-!
Intrusive singly linked lists. The link lives in the member: `next` maps an id to the one after it,
and the id `0` is null. `Chain` says which ids a head leads to; a member is taken out by a walk that
remembers the id before it.
-/

namespace OpenRoad.ForwardList

/-- The `next` links lead from `h` through `l` to null. -/
def Chain (next : Nat → Nat) : Nat → List Nat → Prop
  | h, [] => h = 0
  | h, a :: l => h = a ∧ a ≠ 0 ∧ Chain next (next a) l

variable {next next' : Nat → Nat} {h t : Nat} {l : List Nat}

@[simp] theorem chain_nil : Chain next h [] ↔ h = 0 := Iff.rfl

@[simp] theorem chain_cons (a : Nat) :
    Chain next h (a :: l) ↔ h = a ∧ a ≠ 0 ∧ Chain next (next a) l :=
  Iff.rfl

/-- The walk reads the links of its members only. -/
theorem Chain.congr (hnext : ∀ a ∈ l, next' a = next a) (hchain : Chain next h l) :
    Chain next' h l := by
  induction l generalizing h with
  | nil => exact hchain
  | cons a l ih =>
      obtain ⟨hh, ha, hrest⟩ := hchain
      refine ⟨hh, ha, ?_⟩
      rw [hnext a List.mem_cons_self]
      exact ih (fun b hb => hnext b (List.mem_cons_of_mem _ hb)) hrest

theorem Chain.update (hchain : Chain next h l) (ht : t ∉ l) (v : Nat) :
    Chain (Function.update next t v) h l :=
  hchain.congr fun a ha => Function.update_of_ne (fun heq : a = t => ht (heq ▸ ha)) _ _

theorem Chain.ne_zero (hchain : Chain next h l) : ∀ a ∈ l, a ≠ 0 := by
  induction l generalizing h with
  | nil => exact fun a ha => absurd ha List.not_mem_nil
  | cons a l ih =>
      intro b hb
      rcases List.mem_cons.mp hb with rfl | hb
      · exact hchain.2.1
      · exact ih hchain.2.2 b hb

/-- Null leads nowhere. -/
theorem Chain.eq_nil (hchain : Chain next 0 l) : l = [] := by
  cases l with
  | nil => rfl
  | cons a l => exact absurd hchain.1.symm hchain.2.1

theorem Chain.eq_cons (hchain : Chain next h l) (hh : h ≠ 0) :
    ∃ rest, l = h :: rest ∧ Chain next (next h) rest := by
  cases l with
  | nil => exact absurd hchain hh
  | cons a l =>
      obtain ⟨rfl, -, hrest⟩ := hchain
      exact ⟨l, rfl, hrest⟩

/-- A walk is determined by the links. -/
theorem Chain.unique {l' : List Nat} (hchain : Chain next h l) (hchain' : Chain next h l') :
    l = l' := by
  induction l generalizing h l' with
  | nil => exact (Chain.eq_nil (hchain ▸ hchain')).symm
  | cons a l ih =>
      obtain ⟨rfl, ha, hrest⟩ := hchain
      obtain ⟨rest, rfl, hrest'⟩ := hchain'.eq_cons ha
      rw [ih hrest hrest']

/-- The rest of a walk, from one of its members on. -/
theorem Chain.suffix {l₁ l₂ : List Nat} (hchain : Chain next h (l₁ ++ t :: l₂)) :
    Chain next t (t :: l₂) := by
  induction l₁ generalizing h with
  | nil =>
      obtain ⟨rfl, ht, hrest⟩ := hchain
      exact ⟨rfl, ht, hrest⟩
  | cons a l₁ ih => exact ih hchain.2.2

/-- A walk that ends at null meets no id twice. -/
theorem Chain.nodup (hchain : Chain next h l) : l.Nodup := by
  induction l generalizing h with
  | nil => exact List.nodup_nil
  | cons a l ih =>
      obtain ⟨-, ha, hrest⟩ := hchain
      refine List.nodup_cons.mpr ⟨fun hmem => ?_, ih hrest⟩
      obtain ⟨l₁, l₂, rfl⟩ := List.append_of_mem hmem
      -- the walk from `a` would be a proper part of itself
      have hwhole : Chain next a (a :: (l₁ ++ a :: l₂)) := by exact ⟨rfl, ha, hrest⟩
      have hlen := congrArg List.length (hwhole.unique hrest.suffix)
      simp only [List.length_cons, List.length_append] at hlen
      omega

/-! ### Push at the head -/

theorem chain_push (hchain : Chain next h l) (ht : t ≠ 0) (hmem : t ∉ l) :
    Chain (Function.update next t h) t (t :: l) := by
  refine ⟨rfl, ht, ?_⟩
  rw [Function.update_self]
  exact hchain.update hmem h

/-! ### Take a member out -/

/-- The id before `t` on the walk from `cur`, which `prev` is before; `0` where `t` comes first. No
member is `t` where the walk ends; a walk that goes on after `fuel` steps has no result. -/
def before (next : Nat → Nat) (t : Nat) : Nat → Nat → Nat → Option (Option Nat)
  | 0, _, _ => none
  | fuel + 1, prev, cur =>
      if cur = 0 then some none
      else if cur = t then some (some prev)
      else before next t fuel cur (next cur)

/-- The last id of `p :: l`, the one before what follows. -/
def lastOf (p : Nat) : List Nat → Nat
  | [] => p
  | a :: l => lastOf a l

theorem lastOf_concat (p a : Nat) (l : List Nat) : lastOf p (l ++ [a]) = a := by
  induction l generalizing p with
  | nil => rfl
  | cons b l ih => exact ih b

/-- The walk finds the members, and nothing else. -/
theorem before_mem {fuel p : Nat} {l₁ l₂ : List Nat} (hchain : Chain next h (l₁ ++ t :: l₂))
    (hfuel : l₁.length < fuel) : before next t fuel p h = some (some (lastOf p l₁)) := by
  induction l₁ generalizing fuel h p with
  | nil =>
      obtain ⟨fuel, rfl⟩ : ∃ k, fuel = k + 1 := ⟨fuel - 1, by simp at hfuel; omega⟩
      obtain ⟨rfl, ht, -⟩ := hchain
      rw [before, if_neg ht, if_pos rfl, lastOf]
  | cons a l₁ ih =>
      obtain ⟨fuel, rfl⟩ : ∃ k, fuel = k + 1 := ⟨fuel - 1, by simp at hfuel; omega⟩
      have hne : h ≠ t := by
        rintro rfl
        have hnodup := hchain.nodup
        rw [hchain.1] at hnodup
        exact (List.nodup_cons.mp hnodup).1 (List.mem_append_right _ List.mem_cons_self)
      obtain ⟨rfl, ha, hrest⟩ := hchain
      rw [before, if_neg ha, if_neg hne, lastOf]
      exact ih hrest (Nat.lt_of_succ_lt_succ hfuel)

/-- The link of the id before `t` goes past `t`. -/
def bypass (next : Nat → Nat) (p t : Nat) : Nat → Nat :=
  if p = 0 then next else Function.update next p (next t)

/-- The head after the member `t` is taken out, where `p` is before it. -/
def bypassHead (next : Nat → Nat) (h p t : Nat) : Nat := if p = 0 then next t else h

theorem chain_bypass {l₁ l₂ : List Nat} (hchain : Chain next h (l₁ ++ t :: l₂)) :
    Chain (bypass next (lastOf 0 l₁) t) (bypassHead next h (lastOf 0 l₁) t) (l₁ ++ l₂) := by
  have hnodup := hchain.nodup
  rcases List.eq_nil_or_concat l₁ with rfl | ⟨l₀, p, rfl⟩
  · exact hchain.2.2
  · rw [List.concat_eq_append] at hchain hnodup ⊢
    have hp : p ≠ 0 := hchain.ne_zero p (by simp)
    rw [lastOf_concat, bypass, bypassHead, if_neg hp, if_neg hp]
    rw [List.append_assoc] at hchain hnodup ⊢
    clear hp
    induction l₀ generalizing h with
    | nil =>
        obtain ⟨rfl, hp, -, ht, hrest⟩ := hchain
        refine ⟨rfl, hp, ?_⟩
        have hmem : h ∉ l₂ := fun hmem =>
          (List.nodup_cons.mp hnodup).1 (List.mem_cons_of_mem _ hmem)
        rw [Function.update_self]
        exact hrest.update hmem _
    | cons a l₀ ih =>
        obtain ⟨rfl, ha, hrest⟩ := hchain
        obtain ⟨hnot, hrestNodup⟩ := List.nodup_cons.mp hnodup
        refine ⟨rfl, ha, ?_⟩
        have hne : h ≠ p := fun heq => hnot (by simp [heq])
        rw [Function.update_of_ne hne]
        exact ih hrest hrestNodup

end OpenRoad.ForwardList

/-!
Singly linked lists of members that know their owner. `Ok` says that the list of each owner has
exactly the members that name it, and that no member names an owner that is not there. An owner may
be dropped when no member names it, and a member when it has no owner.
-/

namespace OpenRoad.ForwardList

/-- The lists: `head` by the owner, `next` and `owner` by the member. -/
structure MemberLists where
  head : Nat → Nat := fun _ => 0
  next : Nat → Nat := fun _ => 0
  owner : Nat → Nat := fun _ => 0

namespace MemberLists

variable (s : MemberLists) (g t : Nat)

/-- `t` has no owner. -/
def clear : MemberLists :=
  { s with next := Function.update s.next t 0, owner := Function.update s.owner t 0 }

/-- Take `t` out of the list of `g`, if it is in this one; a walk of more than `fuel` steps does not
end. -/
def remove (fuel : Nat) : Option MemberLists :=
  if s.owner t ≠ g then some s
  else (before s.next t fuel 0 (s.head g)).map fun
    | none => s.clear t
    | some p => { s with
        head := Function.update s.head g (bypassHead s.next (s.head g) p t)
        next := bypass s.next p t }.clear t

/-- `t` becomes the first of the list of `g`. -/
def push : MemberLists where
  head := Function.update s.head g t
  next := Function.update s.next t (s.head g)
  owner := Function.update s.owner t g

/-- Take `t` out of the list it is in, and put it into the list of `g`. -/
def add (fuel : Nat) : Option MemberLists :=
  (if s.owner t ≠ 0 then s.remove (s.owner t) t fuel else some s).map fun s => s.push g t

/-- Take out the members of `g` from `cur` on, going on with the link that a member has after it was
taken out. -/
def removeFrom (fuel : Nat) (s : MemberLists) (g cur : Nat) : Nat → Option MemberLists
  | 0 => if cur = 0 then some s else none
  | k + 1 =>
      if cur = 0 then some s
      else (s.remove g cur fuel).bind fun s => removeFrom fuel s g (s.next cur) k

/-- A new owner has no members. -/
def newOwner : MemberLists := { s with head := Function.update s.head g 0 }

end MemberLists

/-- Every owner's list has the members that name it. -/
structure MemberLists.Ok (owners members : List Nat) (s : MemberLists) : Prop where
  list : ∀ g ∈ owners, ∃ l, Chain s.next (s.head g) l ∧ ∀ t, t ∈ l ↔ t ∈ members ∧ s.owner t = g
  owner : ∀ t ∈ members, s.owner t ≠ 0 → s.owner t ∈ owners
  next : ∀ t ∈ members, s.owner t = 0 → s.next t = 0
  owners_ne_zero : 0 ∉ owners
  members_ne_zero : 0 ∉ members

namespace MemberLists

variable {owners members : List Nat} {s : MemberLists} {g t : Nat}

theorem ok_nil : Ok [] [] {} where
  list := nofun
  owner := nofun
  next := nofun
  owners_ne_zero := List.not_mem_nil
  members_ne_zero := List.not_mem_nil

theorem lastOf_mem {l₁ : List Nat} (h : lastOf 0 l₁ ≠ 0) : lastOf 0 l₁ ∈ l₁ := by
  rcases List.eq_nil_or_concat l₁ with rfl | ⟨l₀, p, rfl⟩
  · exact absurd rfl h
  · rw [List.concat_eq_append, lastOf_concat]
    exact List.mem_append_right _ (List.mem_singleton_self p)

/-- Links of other ids than the one before stay. -/
theorem bypass_of_ne {next : Nat → Nat} {p a : Nat} (h : a ≠ p) : bypass next p t a = next a := by
  unfold bypass
  split_ifs
  · rfl
  · exact Function.update_of_ne h _ _

/-- A member is taken out of the list it is in. -/
theorem Ok.remove (h : Ok owners members s) (ht : t ∈ members) (hg : g ∈ owners)
    (howner : s.owner t = g) {fuel : Nat} (hfuel : members.length < fuel) :
    ∃ s', s.remove g t fuel = some s' ∧ Ok owners members s' ∧ s'.owner = Function.update s.owner t 0 ∧
      s'.next t = 0 := by
  obtain ⟨l, hchain, hmem⟩ := h.list g hg
  obtain ⟨l₁, l₂, rfl⟩ := List.append_of_mem ((hmem t).mpr ⟨ht, howner⟩)
  have hnodup := hchain.nodup
  have hlen : l₁.length < fuel := by
    have hle := (hnodup.subperm fun a ha => ((hmem a).mp ha).1).length_le
    rw [List.length_append, List.length_cons] at hle
    omega
  have hnot : t ∉ l₁ ++ l₂ := by
    have hperm := (@List.perm_middle _ t l₁ l₂).nodup_iff.mp hnodup
    exact (List.nodup_cons.mp hperm).1
  refine ⟨_, by rw [MemberLists.remove, if_neg (not_not.mpr howner), before_mem hchain hlen]; rfl, ?_, rfl,
    Function.update_self t 0 _⟩
  have hg0 : g ≠ 0 := fun h0 => h.owners_ne_zero (h0 ▸ hg)
  have hbefore : ∀ a, s.owner a ≠ g → bypass s.next (lastOf 0 l₁) t a = s.next a := by
    intro a ha
    by_cases hp : lastOf 0 l₁ = 0
    · rw [bypass, if_pos hp]
    · refine bypass_of_ne fun heq => ha ?_
      exact ((hmem a).mp (List.mem_append_left _ (heq ▸ lastOf_mem hp))).2
  constructor
  · intro g' hg'
    change ∃ l, Chain (Function.update (bypass s.next (lastOf 0 l₁) t) t 0)
      (Function.update s.head g _ g') l ∧ ∀ a, a ∈ l ↔ a ∈ members ∧ Function.update s.owner t 0 a = g'
    by_cases hne : g' = g
    · subst hne
      refine ⟨l₁ ++ l₂, ?_, fun a => ?_⟩
      · rw [Function.update_self]
        exact (chain_bypass hchain).update hnot 0
      · by_cases hat : a = t
        · subst hat
          rw [Function.update_self]
          exact iff_of_false hnot fun hall => hg0 hall.2.symm
        · rw [Function.update_of_ne hat, ← hmem a]
          simp [hat]
    · obtain ⟨l', hchain', hmem'⟩ := h.list g' hg'
      refine ⟨l', ?_, fun a => ?_⟩
      · rw [Function.update_of_ne hne]
        refine hchain'.congr fun a ha => ?_
        have hown := ((hmem' a).mp ha).2
        have hat : a ≠ t := by
          rintro rfl
          exact hne (hown.symm.trans howner)
        rw [Function.update_of_ne hat]
        exact hbefore a fun heq => hne (hown.symm.trans heq)
      · by_cases hat : a = t
        · subst hat
          rw [Function.update_self, hmem' a]
          refine iff_of_false (fun hall => hne (hall.2.symm.trans howner)) fun hall => ?_
          exact h.owners_ne_zero (hall.2 ▸ hg')
        · rw [Function.update_of_ne hat]
          exact hmem' a
  · intro a ha hne
    by_cases hat : a = t
    · subst hat
      exact absurd (Function.update_self a 0 s.owner) hne
    · change Function.update s.owner t 0 a ≠ 0 at hne
      change Function.update s.owner t 0 a ∈ owners
      rw [Function.update_of_ne hat] at hne ⊢
      exact h.owner a ha hne
  · intro a ha hzero
    change Function.update (bypass s.next (lastOf 0 l₁) t) t 0 a = 0
    by_cases hat : a = t
    · rw [hat, Function.update_self]
    · change Function.update s.owner t 0 a = 0 at hzero
      rw [Function.update_of_ne hat] at hzero ⊢
      rw [hbefore a fun heq => hg0 (heq.symm.trans hzero)]
      exact h.next a ha hzero
  · exact h.owners_ne_zero
  · exact h.members_ne_zero

/-- A member without an owner becomes the first of a list. -/
theorem Ok.push (h : Ok owners members s) (ht : t ∈ members) (hg : g ∈ owners) (hfree : s.owner t = 0) :
    Ok owners members (s.push g t) := by
  have hg0 : g ≠ 0 := fun h0 => h.owners_ne_zero (h0 ▸ hg)
  have ht0 : t ≠ 0 := fun h0 => h.members_ne_zero (h0 ▸ ht)
  have hnot : ∀ g' ∈ owners, ∀ {l : List Nat}, (∀ a, a ∈ l ↔ a ∈ members ∧ s.owner a = g') → t ∉ l := by
    intro g' hg' l hmem hin
    exact h.owners_ne_zero ((((hmem t).mp hin).2.symm.trans hfree) ▸ hg')
  constructor
  · intro g' hg'
    obtain ⟨l, hchain, hmem⟩ := h.list g' hg'
    have htl := hnot g' hg' hmem
    change ∃ l, Chain (Function.update s.next t (s.head g)) (Function.update s.head g t g') l ∧
      ∀ a, a ∈ l ↔ a ∈ members ∧ Function.update s.owner t g a = g'
    by_cases hne : g' = g
    · subst hne
      refine ⟨t :: l, ?_, fun a => ?_⟩
      · rw [Function.update_self]
        exact chain_push hchain ht0 htl
      · by_cases hat : a = t
        · subst hat
          rw [Function.update_self]
          exact iff_of_true List.mem_cons_self ⟨ht, rfl⟩
        · rw [Function.update_of_ne hat, ← hmem a]
          simp [hat]
    · refine ⟨l, ?_, fun a => ?_⟩
      · rw [Function.update_of_ne hne]
        exact hchain.update htl _
      · by_cases hat : a = t
        · subst hat
          rw [Function.update_self]
          exact iff_of_false htl fun hall => hne hall.2.symm
        · rw [Function.update_of_ne hat]
          exact hmem a
  · intro a ha hne
    change Function.update s.owner t g a ∈ owners
    by_cases hat : a = t
    · rw [hat, Function.update_self]
      exact hg
    · change Function.update s.owner t g a ≠ 0 at hne
      rw [Function.update_of_ne hat] at hne ⊢
      exact h.owner a ha hne
  · intro a ha hzero
    change Function.update s.owner t g a = 0 at hzero
    have hat : a ≠ t := by
      rintro rfl
      rw [Function.update_self] at hzero
      exact hg0 hzero
    change Function.update s.next t _ a = 0
    rw [Function.update_of_ne hat] at hzero ⊢
    exact h.next a ha hzero
  · exact h.owners_ne_zero
  · exact h.members_ne_zero

theorem Ok.add (h : Ok owners members s) (ht : t ∈ members) (hg : g ∈ owners) {fuel : Nat}
    (hfuel : members.length < fuel) : ∃ s', s.add g t fuel = some s' ∧ Ok owners members s' := by
  unfold MemberLists.add
  by_cases hfree : s.owner t = 0
  · rw [if_neg (not_not.mpr hfree)]
    exact ⟨_, rfl, h.push ht hg hfree⟩
  · obtain ⟨s', hremove, hok, howner, -⟩ := h.remove ht (h.owner t ht hfree) rfl hfuel
    rw [if_pos hfree, hremove]
    refine ⟨_, rfl, hok.push ht hg ?_⟩
    rw [howner, Function.update_self]

/-- Taking a member out of a list it is not in changes nothing. -/
theorem Ok.remove_any (h : Ok owners members s) (ht : t ∈ members) (hg : g ∈ owners) {fuel : Nat}
    (hfuel : members.length < fuel) : ∃ s', s.remove g t fuel = some s' ∧ Ok owners members s' := by
  by_cases howner : s.owner t = g
  · obtain ⟨s', hremove, hok, -⟩ := h.remove ht hg howner hfuel
    exact ⟨s', hremove, hok⟩
  · exact ⟨s, by rw [MemberLists.remove, if_pos howner], h⟩

/-- A member is taken out of the list it is in, if it is in one. -/
theorem Ok.leave (h : Ok owners members s) (ht : t ∈ members) {fuel : Nat}
    (hfuel : members.length < fuel) :
    ∃ s', (s.owner t ≠ 0 → s.remove (s.owner t) t fuel = some s') ∧ (s.owner t = 0 → s' = s) ∧
      Ok owners members s' ∧ s'.owner = Function.update s.owner t 0 := by
  by_cases hfree : s.owner t = 0
  · refine ⟨s, absurd hfree, fun _ => rfl, h, ?_⟩
    rw [← hfree, Function.update_eq_self]
  · obtain ⟨s', hremove, hok, howner, -⟩ := h.remove ht (h.owner t ht hfree) rfl hfuel
    exact ⟨s', fun _ => hremove, fun h0 => absurd h0 hfree, hok, howner⟩

/-- Where no other member names the owner, taking out its members leaves it without any. -/
theorem Ok.removeFrom (h : Ok owners members s) (hg : g ∈ owners)
    (hone : ∀ t ∈ members, ∀ u ∈ members, s.owner t = g → s.owner u = g → t = u) {fuel : Nat}
    (hfuel : members.length < fuel) :
    ∃ s', MemberLists.removeFrom fuel s g (s.head g) fuel = some s' ∧ Ok owners members s' ∧
      (∀ t ∈ members, s'.owner t ≠ g) ∧ ∀ t, s'.owner t = s.owner t ∨ s'.owner t = 0 := by
  obtain ⟨l, hchain, hmem⟩ := h.list g hg
  obtain ⟨k, rfl⟩ : ∃ k, fuel = k + 1 := ⟨fuel - 1, by omega⟩
  cases l with
  | nil =>
      refine ⟨s, ?_, h, fun t ht howner => ?_, fun t => Or.inl rfl⟩
      · rw [MemberLists.removeFrom, if_pos (chain_nil.mp hchain)]
      · exact absurd ((hmem t).mpr ⟨ht, howner⟩) List.not_mem_nil
  | cons t l =>
      obtain ⟨hhead, ht0, -⟩ := hchain
      obtain ⟨ht, howner⟩ := (hmem t).mp List.mem_cons_self
      obtain ⟨s', hremove, hok, howner', hnext⟩ := h.remove ht hg howner hfuel
      have hlast : MemberLists.removeFrom (k + 1) s' g 0 k = some s' := by
        cases k with
        | zero => exact if_pos rfl
        | succ k => exact if_pos rfl
      refine ⟨s', ?_, hok, fun u hu hu' => ?_, fun u => ?_⟩
      · rw [hhead, MemberLists.removeFrom, if_neg ht0, hremove, Option.bind_some, hnext]
        exact hlast
      · rw [howner'] at hu'
        by_cases hut : u = t
        · rw [hut, Function.update_self] at hu'
          exact h.owners_ne_zero (hu' ▸ hg)
        · rw [Function.update_of_ne hut] at hu'
          exact hut (hone u hu t ht hu' howner)
      · rw [howner']
        by_cases hut : u = t
        · rw [hut, Function.update_self]
          exact Or.inr rfl
        · rw [Function.update_of_ne hut]
          exact Or.inl rfl

/-! ### Owners and members that come and go -/

theorem Ok.newOwner (h : Ok owners members s) (hg : g ∉ owners) (hg0 : g ≠ 0) :
    Ok (g :: owners) members (s.newOwner g) := by
  constructor
  · intro g' hg'
    change ∃ l, Chain s.next (Function.update s.head g 0 g') l ∧ _
    by_cases hne : g' = g
    · subst hne
      refine ⟨[], ?_, fun a => iff_of_false List.not_mem_nil ?_⟩
      · rw [Function.update_self]
        rfl
      · rintro ⟨ha, howner⟩
        change s.owner a = g' at howner
        exact hg (howner ▸ h.owner a ha (howner ▸ hg0))
    · rw [Function.update_of_ne hne]
      exact h.list g' (List.mem_of_ne_of_mem hne hg')
  · exact fun t ht hne => List.mem_cons_of_mem _ (h.owner t ht hne)
  · exact h.next
  · exact fun h0 => (List.mem_cons.mp h0).elim (fun heq => hg0 heq.symm) h.owners_ne_zero
  · exact h.members_ne_zero

theorem Ok.dropOwner (h : Ok owners members s) (hno : ∀ t ∈ members, s.owner t ≠ g) :
    Ok (owners.filter (· ≠ g)) members s := by
  constructor
  · exact fun g' hg' => h.list g' (List.mem_of_mem_filter hg')
  · intro t ht hne
    exact List.mem_filter.mpr ⟨h.owner t ht hne, decide_eq_true (hno t ht)⟩
  · exact h.next
  · exact fun h0 => h.owners_ne_zero (List.mem_of_mem_filter h0)
  · exact h.members_ne_zero

theorem Ok.newMember (h : Ok owners members s) (ht : t ∉ members) (ht0 : t ≠ 0) :
    Ok owners (t :: members) (s.clear t) := by
  have hother : ∀ a ∈ t :: members, a ≠ t → a ∈ members := fun a ha hne =>
    List.mem_of_ne_of_mem hne ha
  constructor
  · intro g' hg'
    obtain ⟨l, hchain, hmem⟩ := h.list g' hg'
    have htl : t ∉ l := fun hin => ht ((hmem t).mp hin).1
    refine ⟨l, hchain.update htl 0, fun a => ?_⟩
    change a ∈ l ↔ a ∈ t :: members ∧ Function.update s.owner t 0 a = g'
    by_cases hat : a = t
    · subst hat
      rw [Function.update_self]
      exact iff_of_false htl fun hall => h.owners_ne_zero (hall.2 ▸ hg')
    · rw [Function.update_of_ne hat, hmem a]
      simp [hat]
  · intro a ha hne
    change Function.update s.owner t 0 a ≠ 0 at hne
    change Function.update s.owner t 0 a ∈ owners
    by_cases hat : a = t
    · rw [hat, Function.update_self] at hne
      exact absurd rfl hne
    · rw [Function.update_of_ne hat] at hne ⊢
      exact h.owner a (hother a ha hat) hne
  · intro a ha hzero
    change Function.update s.owner t 0 a = 0 at hzero
    change Function.update s.next t 0 a = 0
    by_cases hat : a = t
    · rw [hat, Function.update_self]
    · rw [Function.update_of_ne hat] at hzero ⊢
      exact h.next a (hother a ha hat) hzero
  · exact h.owners_ne_zero
  · exact fun h0 => (List.mem_cons.mp h0).elim (fun heq => ht0 heq.symm) h.members_ne_zero

theorem Ok.dropMember (h : Ok owners members s) (hfree : s.owner t = 0) :
    Ok owners (members.filter (· ≠ t)) s := by
  constructor
  · intro g' hg'
    obtain ⟨l, hchain, hmem⟩ := h.list g' hg'
    refine ⟨l, hchain, fun a => ?_⟩
    rw [hmem a, List.mem_filter]
    constructor
    · rintro ⟨ha, howner⟩
      refine ⟨⟨ha, decide_eq_true ?_⟩, howner⟩
      rintro rfl
      exact h.owners_ne_zero ((howner.symm.trans hfree) ▸ hg')
    · exact fun hall => ⟨hall.1.1, hall.2⟩
  · exact fun a ha => h.owner a (List.mem_of_mem_filter ha)
  · exact fun a ha => h.next a (List.mem_of_mem_filter ha)
  · exact h.owners_ne_zero
  · exact fun h0 => h.members_ne_zero (List.mem_of_mem_filter h0)

end MemberLists

end OpenRoad.ForwardList
