import Mathlib.Logic.Function.Basic
import Mathlib.Data.List.Basic
import Mathlib.Data.List.Nodup
import Mathlib.Data.Finset.Basic
import Mathlib.Tactic.Tauto

/-!
Intrusive doubly linked lists. The links live in the members: `next` and `prev` map an id to its
neighbours, and the id `0` is null. `Chain` says which ids a head leads to; the lemmas follow the
two updates such lists are maintained by, a push at the head and an unlink at any position.
-/

namespace OpenRoad.LinkedList

/-- Starting at `h`, which has `p` before it, the `next` links run through `l` and end at null, and
every `prev` link points back to where the walk came from. -/
def Chain (next prev : Nat → Nat) : Nat → Nat → List Nat → Prop
  | _, h, [] => h = 0
  | p, h, a :: l => h = a ∧ a ≠ 0 ∧ prev a = p ∧ Chain next prev a (next a) l

variable {next prev next' prev' : Nat → Nat} {p h : Nat} {l : List Nat}

@[simp] theorem chain_nil : Chain next prev p h [] ↔ h = 0 := Iff.rfl

@[simp] theorem chain_cons (a : Nat) :
    Chain next prev p h (a :: l) ↔ h = a ∧ a ≠ 0 ∧ prev a = p ∧ Chain next prev a (next a) l :=
  Iff.rfl

/-- The walk reads the links of its members only. -/
theorem Chain.congr (hnext : ∀ a ∈ l, next' a = next a) (hprev : ∀ a ∈ l, prev' a = prev a)
    (hchain : Chain next prev p h l) : Chain next' prev' p h l := by
  induction l generalizing p h with
  | nil => exact hchain
  | cons a l ih =>
      obtain ⟨hh, ha, hp, hrest⟩ := hchain
      refine ⟨hh, ha, (hprev a (by simp)).trans hp, ?_⟩
      rw [hnext a (by simp)]
      exact ih (fun b hb => hnext b (by simp [hb])) (fun b hb => hprev b (by simp [hb])) hrest

theorem Chain.ne_zero (hchain : Chain next prev p h l) : ∀ a ∈ l, a ≠ 0 := by
  induction l generalizing p h with
  | nil => simp
  | cons a l ih =>
      obtain ⟨_, ha, _, hrest⟩ := hchain
      intro b hb
      rcases List.mem_cons.mp hb with rfl | hb
      · exact ha
      · exact ih hrest b hb

theorem Chain.head_mem (hchain : Chain next prev p h l) (hh : h ≠ 0) : h ∈ l := by
  cases l with
  | nil => exact absurd hchain hh
  | cons a l => exact hchain.1 ▸ List.mem_cons_self

/-- A walk is determined by the links. -/
theorem Chain.unique {l' : List Nat} (hchain : Chain next prev p h l)
    (hchain' : Chain next prev p h l') : l = l' := by
  induction l generalizing p h l' with
  | nil =>
      cases l' with
      | nil => rfl
      | cons a l' => exact absurd (hchain'.1.symm.trans hchain) hchain'.2.1
  | cons a l ih =>
      cases l' with
      | nil => exact absurd (hchain.1.symm.trans hchain') hchain.2.1
      | cons b l' =>
          obtain ⟨ha, _, _, hrest⟩ := hchain
          obtain ⟨hb, _, _, hrest'⟩ := hchain'
          obtain rfl : a = b := ha.symm.trans hb
          rw [ih hrest hrest']

/-- The successor of a member is a later member or null. -/
theorem Chain.next_mem (hchain : Chain next prev p h l) {t : Nat} (ht : t ∈ l) :
    next t = 0 ∨ next t ∈ l := by
  induction l generalizing p h with
  | nil => simp at ht
  | cons a l ih =>
      obtain ⟨_, _, _, hrest⟩ := hchain
      rcases List.mem_cons.mp ht with rfl | ht
      · by_cases hz : next t = 0
        · exact Or.inl hz
        · exact Or.inr (List.mem_cons_of_mem _ (hrest.head_mem hz))
      · exact (ih hrest ht).imp_right (List.mem_cons_of_mem _)

/-- The predecessor of a member is a member, or the id before the walk's head. -/
theorem Chain.prev_mem (hchain : Chain next prev p h l) {t : Nat} (ht : t ∈ l) (hne : t ≠ h) :
    prev t ∈ l := by
  induction l generalizing p h with
  | nil => simp at ht
  | cons a l ih =>
      obtain ⟨hh, _, _, hrest⟩ := hchain
      rcases List.mem_cons.mp ht with rfl | ht
      · exact absurd hh.symm hne
      · by_cases hta : t = next a
        · cases l with
          | nil => simp at ht
          | cons b l => rw [hta, hrest.1, hrest.2.2.1]; exact List.mem_cons_self
        · exact List.mem_cons_of_mem _ (ih hrest ht hta)

/-- The id before a walk's head enters the links only through the head. -/
theorem Chain.reroot {q : Nat} (hchain : Chain next prev p h l) (hl : l.Nodup) :
    Chain next (Function.update prev h q) q h l := by
  cases l with
  | nil => exact hchain
  | cons a l =>
      obtain ⟨rfl, ha, _, hrest⟩ := hchain
      refine ⟨rfl, ha, by simp, hrest.congr (fun _ _ => rfl) (fun b hb => ?_)⟩
      rw [Function.update_of_ne]
      rintro rfl
      exact (List.nodup_cons.mp hl).1 hb

/-! ### Push at the head -/

/-- The `prev` links after `t` is pushed in front of `h`. -/
def pushPrev (prev : Nat → Nat) (h t : Nat) : Nat → Nat :=
  Function.update (if h ≠ 0 then Function.update prev h t else prev) t 0

theorem chain_push {t : Nat} (hchain : Chain next prev 0 h l) (hl : l.Nodup) (ht : t ≠ 0)
    (hmem : t ∉ l) :
    Chain (Function.update next t h) (pushPrev prev h t) 0 t (t :: l) := by
  refine ⟨rfl, ht, by simp [pushPrev], ?_⟩
  rw [Function.update_self]
  have hne : ∀ a ∈ l, a ≠ t := fun a ha hat => hmem (hat ▸ ha)
  by_cases hh : h = 0
  · cases l with
    | nil => exact hh
    | cons a l => exact absurd (hchain.1.symm.trans hh) hchain.2.1
  · refine (hchain.reroot (q := t) hl).congr (fun a ha => ?_) (fun a ha => ?_)
    · rw [Function.update_of_ne (hne a ha)]
    · simp only [pushPrev, hh, ne_eq, not_false_eq_true, if_true]
      rw [Function.update_of_ne (hne a ha)]

/-! ### Unlink at any position -/

/-- The successor link of the member before `t` bypasses `t`. -/
def unlinkNext (next prev : Nat → Nat) (t : Nat) : Nat → Nat :=
  if prev t ≠ 0 then Function.update next (prev t) (next t) else next

/-- The predecessor link of the member after `t` bypasses `t`. -/
def unlinkPrev (next prev : Nat → Nat) (t : Nat) : Nat → Nat :=
  if next t ≠ 0 then Function.update prev (next t) (prev t) else prev

theorem unlinkNext_of_ne {t a : Nat} (h : a ≠ prev t) : unlinkNext next prev t a = next a := by
  unfold unlinkNext
  split_ifs
  · exact Function.update_of_ne h _ _
  · rfl

theorem unlinkPrev_of_ne {t a : Nat} (h : a ≠ next t) : unlinkPrev next prev t a = prev a := by
  unfold unlinkPrev
  split_ifs
  · exact Function.update_of_ne h _ _
  · rfl

theorem chain_unlink {t : Nat} (hchain : Chain next prev p h l) (hl : l.Nodup) (hp : p ∉ l)
    (ht : t ∈ l) :
    Chain (unlinkNext next prev t) (unlinkPrev next prev t) p (if h = t then next t else h)
      (l.erase t) := by
  induction l generalizing p h with
  | nil => simp at ht
  | cons a l ih =>
      obtain ⟨rfl, ha, hpa, hrest⟩ := hchain
      obtain ⟨hal, hnd⟩ := List.nodup_cons.mp hl
      have hpl : p ∉ l := fun hmem => hp (List.mem_cons_of_mem _ hmem)
      by_cases hat : h = t
      · subst hat
        rw [if_pos rfl, List.erase_cons_head]
        cases l with
        | nil => exact hrest
        | cons b l =>
            obtain ⟨hb, hb0, hpb, hrest'⟩ := hrest
            have hbl := (List.nodup_cons.mp hnd).1
            have hnext : ∀ c ∈ b :: l, unlinkNext next prev h c = next c := fun c hc =>
              unlinkNext_of_ne (fun hcp => hpl ((hcp.trans hpa) ▸ hc))
            refine ⟨hb, hb0, ?_, ?_⟩
            · rw [unlinkPrev, if_pos (by rw [hb]; exact hb0), hb, Function.update_self, hpa]
            · rw [hnext b List.mem_cons_self]
              refine hrest'.congr (fun c hc => hnext c (List.mem_cons_of_mem _ hc)) (fun c hc => ?_)
              exact unlinkPrev_of_ne (fun hcb => hbl ((hcb.trans hb) ▸ hc))
      · have htl : t ∈ l := (List.mem_cons.mp ht).resolve_left (fun h' => hat h'.symm)
        rw [if_neg hat, List.erase_cons_tail (by simpa using hat)]
        refine ⟨rfl, ha, ?_, ?_⟩
        · rw [unlinkPrev_of_ne, hpa]
          rcases hrest.next_mem htl with hz | hmem
          · rw [hz]; exact ha
          · rintro rfl; exact hal hmem
        · have hhead : unlinkNext next prev t h = if next h = t then next t else next h := by
            by_cases hnt : next h = t
            · have hpt : prev t = h := by
                cases l with
                | nil => simp at htl
                | cons b l => rw [← hnt, hrest.1, hrest.2.2.1]
              rw [if_pos hnt, unlinkNext, hpt, if_pos ha, Function.update_self]
            · rw [if_neg hnt, unlinkNext_of_ne]
              rintro rfl
              exact hal (hrest.prev_mem htl (fun h' => hnt h'.symm))
          rw [hhead]
          exact ih hrest hnd hal htl

/-! ### Families of lists, one for each owner -/

/-- The links of a family of lists. `head n` is the first member of the list owned by `n`; a member
records its owner and its neighbours. -/
structure Lists where
  head : Nat → Nat
  next : Nat → Nat
  prev : Nat → Nat
  owner : Nat → Nat

namespace Lists

/-- No list has a member. -/
def empty : Lists := ⟨fun _ => 0, fun _ => 0, fun _ => 0, fun _ => 0⟩

/-- `t` becomes the first member of the list owned by `n`. -/
def push (s : Lists) (t n : Nat) : Lists where
  head := Function.update s.head n t
  next := Function.update s.next t (s.head n)
  prev := pushPrev s.prev (s.head n) t
  owner := Function.update s.owner t n

/-- `t` leaves the list owned by `n`; whether it is the first member is read off the head. -/
def unlink (s : Lists) (t n : Nat) : Lists :=
  if s.head n = t then
    { head := Function.update s.head n (s.next t)
      next := s.next
      prev := if s.next t ≠ 0 then Function.update s.prev (s.next t) 0 else s.prev
      owner := Function.update s.owner t 0 }
  else
    { head := s.head
      next := unlinkNext s.next s.prev t
      prev := unlinkPrev s.next s.prev t
      owner := Function.update s.owner t 0 }

/-- The same, where whether `t` is the first member is read off its `prev` link. -/
def unlinkByPrev (s : Lists) (t n : Nat) : Lists where
  head := if s.prev t = 0 then Function.update s.head n (s.next t) else s.head
  next := unlinkNext s.next s.prev t
  prev := unlinkPrev s.next s.prev t
  owner := Function.update s.owner t 0

/-- `t` gets the links of a freshly constructed member. -/
def clearMember (s : Lists) (t : Nat) : Lists :=
  { s with
    next := Function.update s.next t 0
    prev := Function.update s.prev t 0
    owner := Function.update s.owner t 0 }

/-- `n` gets the head of a freshly constructed owner. -/
def clearOwner (s : Lists) (n : Nat) : Lists :=
  { s with head := Function.update s.head n 0 }

/-- `l` is the list owned by `n`: the links run through it, without repetition, and its members are
the ids whose owner is `n`. -/
structure IsList (s : Lists) (n : Nat) (l : List Nat) : Prop where
  chain : Chain s.next s.prev 0 (s.head n) l
  nodup : l.Nodup
  mem_iff : ∀ t, t ∈ l ↔ t ≠ 0 ∧ s.owner t = n

/-- Every owner has its list. -/
def Wf (s : Lists) : Prop := ∀ n, n ≠ 0 → ∃ l, s.IsList n l

@[simp] theorem owner_push (s : Lists) (t n : Nat) :
    (s.push t n).owner = Function.update s.owner t n := rfl

@[simp] theorem owner_unlink (s : Lists) (t n : Nat) :
    (s.unlink t n).owner = Function.update s.owner t 0 := by
  unfold unlink
  split_ifs <;> rfl

@[simp] theorem owner_unlinkByPrev (s : Lists) (t n : Nat) :
    (s.unlinkByPrev t n).owner = Function.update s.owner t 0 := rfl

@[simp] theorem owner_clearMember (s : Lists) (t : Nat) :
    (s.clearMember t).owner = Function.update s.owner t 0 := rfl

@[simp] theorem owner_clearOwner (s : Lists) (n : Nat) : (s.clearOwner n).owner = s.owner := rfl

theorem wf_empty : empty.Wf := by
  intro n hn
  refine ⟨[], rfl, List.nodup_nil, fun t => ?_⟩
  simpa [empty] using fun _ => hn.symm

/-- The links of a list that `t` is not in do not involve `t`. -/
theorem IsList.ne {s : Lists} {n t : Nat} {l : List Nat} (hl : s.IsList n l)
    (ht : s.owner t ≠ n) : ∀ a ∈ l, a ≠ t := by
  rintro a ha rfl
  exact ht ((hl.mem_iff a).mp ha).2

theorem wf_push {s : Lists} (hs : s.Wf) {t n : Nat} (ht : t ≠ 0) (hn : n ≠ 0)
    (howner : s.owner t = 0) : (s.push t n).Wf := by
  intro m hm
  obtain ⟨l, hl⟩ := hs m hm
  have hlt : ∀ a ∈ l, a ≠ t := hl.ne (by rw [howner]; exact hm.symm)
  by_cases hmn : m = n
  · subst hmn
    refine ⟨t :: l, ?_, ?_, ?_⟩
    · simpa [push] using chain_push hl.chain hl.nodup ht (fun h => hlt t h rfl)
    · exact List.nodup_cons.mpr ⟨fun h => hlt t h rfl, hl.nodup⟩
    · intro a
      by_cases hat : a = t
      · subst hat; simp [push, ht]
      · simp [push, hat, hl.mem_iff a]
  · refine ⟨l, ?_, hl.nodup, ?_⟩
    · have hhead : ∀ a ∈ l, a ≠ s.head n ∨ s.head n = 0 := by
        intro a ha
        by_cases hz : s.head n = 0
        · exact Or.inr hz
        · obtain ⟨ln, hln⟩ := hs n hn
          refine Or.inl (hl.ne (t := s.head n) ?_ a ha)
          rw [((hln.mem_iff _).mp (hln.chain.head_mem hz)).2]
          exact fun h => hmn h.symm
      simp only [push, Function.update_of_ne hmn]
      refine hl.chain.congr (fun a ha => Function.update_of_ne (hlt a ha) _ _) (fun a ha => ?_)
      rw [pushPrev, Function.update_of_ne (hlt a ha)]
      rcases hhead a ha with hne | hz
      · split_ifs
        · exact Function.update_of_ne hne _ _
        · rfl
      · rw [if_neg (by simpa using hz)]
    · intro a
      by_cases hat : a = t
      · subst hat
        simp [push, hl.mem_iff a, howner, hm.symm, Ne.symm hmn]
      · simp [push, hat, hl.mem_iff a]

/-- The links of one owner's list stay as they are when a member of another owner's list is
bypassed. -/
theorem IsList.unlink_other {s : Lists} {m n t : Nat} {l ln : List Nat} (hl : s.IsList m l)
    (hln : s.IsList n ln) (hmn : m ≠ n) (ht : t ∈ ln) :
    Chain (unlinkNext s.next s.prev t) (unlinkPrev s.next s.prev t) 0 (s.head m) l := by
  have hother : ∀ b ∈ ln, ∀ a ∈ l, a ≠ b := by
    intro b hb
    refine hl.ne ?_
    rw [((hln.mem_iff b).mp hb).2]
    exact hmn.symm
  refine hl.chain.congr (fun a ha => ?_) (fun a ha => ?_)
  · by_cases hth : t = s.head n
    · have hprev : s.prev t = 0 := by
        cases ln with
        | nil => simp at ht
        | cons b ln => rw [hth, hln.chain.1, hln.chain.2.2.1]
      rw [unlinkNext, if_neg (by simpa using hprev)]
    · exact unlinkNext_of_ne (hother _ (hln.chain.prev_mem ht hth) a ha)
  · rcases hln.chain.next_mem ht with hz | hmem
    · rw [unlinkPrev, if_neg (by simpa using hz)]
    · exact unlinkPrev_of_ne (hother _ hmem a ha)

/-- What an unlink does to the links of a well formed family, however it finds the head. -/
theorem wf_bypass {s s' : Lists} (hs : s.Wf) {t n : Nat} (ht : t ≠ 0) (hn : n ≠ 0)
    (howner : s.owner t = n)
    (hhead : ∀ m, m ≠ n → s'.head m = s.head m)
    (hheadn : s'.head n = if s.head n = t then s.next t else s.head n)
    (hnext : s'.next = unlinkNext s.next s.prev t) (hprev : s'.prev = unlinkPrev s.next s.prev t)
    (howner' : s'.owner = Function.update s.owner t 0) : s'.Wf := by
  obtain ⟨ln, hln⟩ := hs n hn
  have htln : t ∈ ln := (hln.mem_iff t).mpr ⟨ht, howner⟩
  intro m hm
  by_cases hmn : m = n
  · subst hmn
    refine ⟨ln.erase t, ?_, hln.nodup.erase t, ?_⟩
    · rw [hnext, hprev, hheadn]
      exact chain_unlink hln.chain hln.nodup (fun h => hln.chain.ne_zero 0 h rfl) htln
    · intro a
      rw [hln.nodup.mem_erase_iff, hln.mem_iff, howner']
      by_cases hat : a = t
      · subst hat; simp [hm.symm]
      · simp [hat]
  · obtain ⟨l, hl⟩ := hs m hm
    refine ⟨l, ?_, hl.nodup, ?_⟩
    · rw [hnext, hprev, hhead m hmn]
      exact hl.unlink_other hln hmn htln
    · intro a
      rw [hl.mem_iff, howner']
      by_cases hat : a = t
      · subst hat; simp [howner, hm.symm, Ne.symm hmn]
      · simp [hat]

/-- In a well formed family the first member is the one without a predecessor. -/
theorem head_eq_iff {s : Lists} (hs : s.Wf) {t n : Nat} (ht : t ≠ 0) (hn : n ≠ 0)
    (howner : s.owner t = n) : s.head n = t ↔ s.prev t = 0 := by
  obtain ⟨ln, hln⟩ := hs n hn
  have htln : t ∈ ln := (hln.mem_iff t).mpr ⟨ht, howner⟩
  constructor
  · intro h
    cases ln with
    | nil => simp at htln
    | cons b ln => rw [← h, hln.chain.1, hln.chain.2.2.1]
  · intro h
    by_contra hne
    exact hln.chain.ne_zero _ (hln.chain.prev_mem htln (fun h' => hne h'.symm)) h

theorem wf_unlink {s : Lists} (hs : s.Wf) {t n : Nat} (ht : t ≠ 0) (hn : n ≠ 0)
    (howner : s.owner t = n) : (s.unlink t n).Wf := by
  by_cases hhead : s.head n = t
  · have hprev : s.prev t = 0 := (head_eq_iff hs ht hn howner).mp hhead
    refine wf_bypass hs ht hn howner ?_ ?_ ?_ ?_ (owner_unlink s t n)
    · intro m hm
      simp [unlink, hhead, hm]
    · simp [unlink, hhead]
    · simp [unlink, hhead, unlinkNext, hprev]
    · simp [unlink, hhead, unlinkPrev, hprev]
  · refine wf_bypass hs ht hn howner ?_ ?_ ?_ ?_ (owner_unlink s t n) <;> simp [unlink, hhead]

theorem wf_unlinkByPrev {s : Lists} (hs : s.Wf) {t n : Nat} (ht : t ≠ 0) (hn : n ≠ 0)
    (howner : s.owner t = n) : (s.unlinkByPrev t n).Wf := by
  have hiff := head_eq_iff hs ht hn howner
  refine wf_bypass hs ht hn howner ?_ ?_ rfl rfl rfl
  · intro m hm
    simp only [unlinkByPrev]
    split_ifs
    · exact Function.update_of_ne hm _ _
    · rfl
  · by_cases hprev : s.prev t = 0
    · simp [unlinkByPrev, hprev, hiff.mpr hprev]
    · simp [unlinkByPrev, hprev, mt hiff.mp hprev]

theorem wf_clearMember {s : Lists} (hs : s.Wf) {t : Nat} (howner : s.owner t = 0) :
    (s.clearMember t).Wf := by
  intro m hm
  obtain ⟨l, hl⟩ := hs m hm
  have hlt := hl.ne (t := t) (by rw [howner]; exact hm.symm)
  refine ⟨l, hl.chain.congr (fun a ha => Function.update_of_ne (hlt a ha) _ _)
    (fun a ha => Function.update_of_ne (hlt a ha) _ _), hl.nodup, fun a => ?_⟩
  rw [hl.mem_iff]
  by_cases hat : a = t
  · subst hat; simp [clearMember, howner]
  · simp [clearMember, hat]

theorem wf_clearOwner {s : Lists} (hs : s.Wf) {n : Nat} (hnone : ∀ t, t ≠ 0 → s.owner t ≠ n) :
    (s.clearOwner n).Wf := by
  intro m hm
  obtain ⟨l, hl⟩ := hs m hm
  by_cases hmn : m = n
  · subst hmn
    refine ⟨[], by simp [clearOwner], List.nodup_nil, fun t => ?_⟩
    simpa [clearOwner] using fun ht => hnone t ht
  · exact ⟨l, by simpa [clearOwner, Function.update_of_ne hmn] using hl.chain, hl.nodup, hl.mem_iff⟩

/-! ### Lists over a set of members and a set of owners -/

/-- The lists are well formed, and only members are on lists, those of owners. -/
structure Over (s : Lists) (members owners : Finset Nat) : Prop where
  wf : s.Wf
  zero_member : 0 ∉ members
  zero_owner : 0 ∉ owners
  member : ∀ t, s.owner t ≠ 0 → t ∈ members
  owner : ∀ t, s.owner t ≠ 0 → s.owner t ∈ owners

variable {s : Lists} {members owners : Finset Nat} {t n : Nat}

theorem Over.member_ne_zero (h : s.Over members owners) (ht : t ∈ members) : t ≠ 0 := by
  rintro rfl
  exact h.zero_member ht

theorem Over.owner_ne_zero (h : s.Over members owners) (hn : n ∈ owners) : n ≠ 0 := by
  rintro rfl
  exact h.zero_owner hn

theorem Over.owner_eq_zero (h : s.Over members owners) (ht : t ∉ members) : s.owner t = 0 :=
  not_not.mp fun h0 => ht (h.member t h0)

theorem Over.owner_ne (h : s.Over members owners) (hn : n ∉ owners) (hn0 : n ≠ 0) :
    s.owner t ≠ n := by
  rintro rfl
  exact hn (h.owner t hn0)

/-- Other owners for some members. -/
theorem Over.of_update {s' : Lists} (h : s.Over members owners) (hwf : s'.Wf)
    (howner : s'.owner = Function.update s.owner t n) (ht : n ≠ 0 → t ∈ members)
    (hn : n ≠ 0 → n ∈ owners) : s'.Over members owners := by
  refine ⟨hwf, h.zero_member, h.zero_owner, fun a ha => ?_, fun a ha => ?_⟩
  · by_cases hat : a = t
    · subst hat
      rw [howner, Function.update_self] at ha
      exact ht ha
    · rw [howner, Function.update_of_ne hat] at ha
      exact h.member a ha
  · rw [howner] at ha ⊢
    by_cases hat : a = t
    · subst hat
      rw [Function.update_self] at ha ⊢
      exact hn ha
    · rw [Function.update_of_ne hat] at ha ⊢
      exact h.owner a ha

theorem over_empty (hmembers : 0 ∉ members) (howners : 0 ∉ owners) : empty.Over members owners :=
  ⟨wf_empty, hmembers, howners, fun _ h => absurd rfl h, fun _ h => absurd rfl h⟩

theorem Over.push (h : s.Over members owners) (ht : t ∈ members) (hn : n ∈ owners)
    (howner : s.owner t = 0) : (s.push t n).Over members owners :=
  h.of_update (wf_push h.wf (h.member_ne_zero ht) (h.owner_ne_zero hn) howner) rfl (fun _ => ht)
    fun _ => hn

theorem Over.unlink (h : s.Over members owners) (howner : s.owner t = n) (hn : n ≠ 0) :
    (s.unlink t n).Over members owners := by
  have ht : t ≠ 0 := h.member_ne_zero (h.member t (by rw [howner]; exact hn))
  exact h.of_update (wf_unlink h.wf ht hn howner) (owner_unlink s t n) (fun h0 => absurd rfl h0)
    fun h0 => absurd rfl h0

theorem Over.unlinkByPrev (h : s.Over members owners) (howner : s.owner t = n) (hn : n ≠ 0) :
    (s.unlinkByPrev t n).Over members owners := by
  have ht : t ≠ 0 := h.member_ne_zero (h.member t (by rw [howner]; exact hn))
  exact h.of_update (wf_unlinkByPrev h.wf ht hn howner) rfl (fun h0 => absurd rfl h0)
    fun h0 => absurd rfl h0

theorem Over.clearMember (h : s.Over members owners) (howner : s.owner t = 0) :
    (s.clearMember t).Over members owners :=
  h.of_update (wf_clearMember h.wf howner) rfl (fun h0 => absurd rfl h0) fun h0 => absurd rfl h0

/-- An owner without members has an empty list. -/
theorem Over.head_eq_zero (h : s.Over members owners) (hn : n ≠ 0) (hnone : ∀ t, s.owner t ≠ n) :
    s.head n = 0 := by
  obtain ⟨l, hl⟩ := h.wf n hn
  by_contra hhead
  exact hnone _ ((hl.mem_iff _).mp (hl.chain.head_mem hhead)).2

/-- A member is constructed. -/
theorem Over.insertMember (h : s.Over members owners) (ht : t ∉ members) (ht0 : t ≠ 0) :
    (s.clearMember t).Over (insert t members) owners := by
  have hc := h.clearMember (h.owner_eq_zero ht)
  refine ⟨hc.wf, ?_, h.zero_owner, fun a ha => Finset.mem_insert_of_mem (hc.member a ha), hc.owner⟩
  simp [h.zero_member, ht0.symm]

/-- A member that is on no list is destroyed. -/
theorem Over.eraseMember (h : s.Over members owners) (howner : s.owner t = 0) :
    s.Over (members.erase t) owners := by
  refine ⟨h.wf, fun h0 => h.zero_member (Finset.mem_of_mem_erase h0), h.zero_owner, fun a ha => ?_,
    h.owner⟩
  refine Finset.mem_erase.mpr ⟨?_, h.member a ha⟩
  rintro rfl
  exact ha howner

/-- An owner is constructed. -/
theorem Over.insertOwner (h : s.Over members owners) (hn : n ∉ owners) (hn0 : n ≠ 0) :
    (s.clearOwner n).Over members (insert n owners) := by
  refine ⟨wf_clearOwner h.wf fun t _ => h.owner_ne hn hn0, h.zero_member, ?_, h.member,
    fun a ha => Finset.mem_insert_of_mem (h.owner a ha)⟩
  simp [h.zero_owner, hn0.symm]

/-- An owner whose list is empty is destroyed. -/
theorem Over.eraseOwner (h : s.Over members owners) (hnone : ∀ t, s.owner t ≠ n) :
    s.Over members (owners.erase n) := by
  refine ⟨h.wf, h.zero_member, fun h0 => h.zero_owner (Finset.mem_of_mem_erase h0), h.member,
    fun a ha => Finset.mem_erase.mpr ⟨hnone a, h.owner a ha⟩⟩

end Lists

end OpenRoad.LinkedList
